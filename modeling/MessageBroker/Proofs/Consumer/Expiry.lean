import Mathlib.Data.List.Dedup
import MessageBroker.Proofs.Consumer.Store

/-!
# Dropping expired marks cannot be noticed

A store drops marks only when another id is marked, and only those that have expired by then. A
store that drops nothing (`keepMark`) is the reference: it holds every mark ever made, and the
latest of an id counts. `dropping_is_invisible` says that both give the same answers to every
sequence of calls, as long as the clock does not run backwards, and which ids the dropping store
still holds.

The proof keeps one fact about the dropping store (`Abridges`): of each id it holds the latest mark,
unless that had expired at the reading of the last mark of any id, the *cut*. What has expired stays
expired, so the answers at all later readings are those of the reference
(`Abridges.isProcessed_eq`). At the cut itself, what is held is exactly what has not expired
(`Abridges.mem_ids_iff`).
-/

namespace MessageBroker

/-- A call on a store, at a reading of the monotonic clock. -/
inductive StoreCall where
  | mark (id : Ident) (now : Span)
  | ask (id : Ident) (now : Span)

namespace StoreCall

/-- The reading of the clock at which the call happens. -/
def time : StoreCall → Span
  | .mark _ now | .ask _ now => now

/-- The call only asks. -/
def isAsk : StoreCall → Bool
  | .mark .. => false
  | .ask .. => true

/-- The id that the call marks. -/
def markedId? : StoreCall → Option Ident
  | .mark id _ => some id
  | .ask .. => none

/-- The reading at which the call marks that id. -/
def markOf? (id : Ident) : StoreCall → Option Span
  | .mark other now => if other = id then some now else none
  | .ask .. => none

/-- The reading of the latest mark of an id among some calls, oldest first. -/
def latest? (calls : List StoreCall) (id : Ident) : Option Span :=
  (calls.filterMap (markOf? id)).getLast?

/-- The ids that some calls mark, each of them once. -/
def markedIds (calls : List StoreCall) : List Ident := (calls.filterMap markedId?).dedup

/-- The clock does not run backwards from call to call. -/
def InOrder (calls : List StoreCall) : Prop := calls.Pairwise fun c c' => c.time ≤ c'.time

instance (calls : List StoreCall) : Decidable (InOrder calls) :=
  inferInstanceAs (Decidable (calls.Pairwise _))

/-- The ids whose latest mark among some calls has not expired at a reading, each of them once. -/
def unexpired (retention now : Span) (calls : List StoreCall) : List Ident :=
  (markedIds calls).filter fun id =>
    (latest? calls id).any fun marked => now.since marked ≤ retention

theorem markOf?_mark_self (id : Ident) (now : Span) : (mark id now).markOf? id = some now :=
  if_pos rfl

theorem markOf?_mark_of_ne {id other : Ident} (hne : id ≠ other) (now : Span) :
    (mark id now).markOf? other = none :=
  if_neg hne

/-- After another call, the latest mark of an id is that of the call, if it marks the id. -/
theorem latest?_concat (calls : List StoreCall) (c : StoreCall) (id : Ident) :
    latest? (calls ++ [c]) id = (c.markOf? id).or (latest? calls id) := by
  unfold latest?
  rw [List.filterMap_append, List.getLast?_append]
  cases hmark : c.markOf? id with
  | none => rw [List.filterMap_cons_none hmark, List.filterMap_nil]; rfl
  | some now => rw [List.filterMap_cons_some hmark, List.filterMap_nil]; rfl

/-- An id has a latest mark exactly if some call marks it. -/
theorem latest?_isSome_iff {calls : List StoreCall} {id : Ident} :
    (latest? calls id).isSome = true ↔ id ∈ markedIds calls := by
  have hmarks : ∀ c : StoreCall, (c.markOf? id).isSome = true ↔ c.markedId? = some id := by
    intro c
    cases c with
    | mark other now => by_cases h : other = id <;> simp [markOf?, markedId?, h]
    | ask other now => simp [markOf?, markedId?]
  unfold latest? markedIds
  rw [List.mem_dedup, List.mem_filterMap, List.getLast?_isSome]
  constructor
  · intro hne
    obtain ⟨now, hnow⟩ := List.exists_mem_of_ne_nil _ hne
    obtain ⟨c, hc, hmark⟩ := List.mem_filterMap.mp hnow
    exact ⟨c, hc, (hmarks c).mp (Option.isSome_of_eq_some hmark)⟩
  · rintro ⟨c, hc, hid⟩
    obtain ⟨now, hnow⟩ := Option.isSome_iff_exists.mp ((hmarks c).mpr hid)
    exact List.ne_nil_of_mem (List.mem_filterMap.mpr ⟨c, hc, hnow⟩)

/-- No id is listed as unexpired twice. -/
theorem nodup_unexpired (retention now : Span) (calls : List StoreCall) :
    (unexpired retention now calls).Nodup :=
  (List.nodup_dedup _).filter _

/-- Being listed as unexpired is a matter of the latest mark. -/
theorem mem_unexpired_iff {retention now : Span} {calls : List StoreCall} {id : Ident} :
    id ∈ unexpired retention now calls ↔
      ∃ marked, latest? calls id = some marked ∧ now.since marked ≤ retention := by
  unfold unexpired
  rw [List.mem_filter, ← latest?_isSome_iff, Option.any_eq_true]
  simp only [decide_eq_true_eq]
  constructor
  · exact fun ⟨_, hmark⟩ => hmark
  · exact fun ⟨marked, hmark, hle⟩ => ⟨Option.isSome_of_eq_some hmark, marked, hmark, hle⟩

end StoreCall

namespace IdempotencyStore

open StoreCall

variable {s : IdempotencyStore} {id : Ident} {now : Span}

/-! ## Stores under calls -/

/-- Marks an id and drops nothing. -/
def keepMark (s : IdempotencyStore) (id : Ident) (now : Span) : IdempotencyStore :=
  { s with marks := (id, now) :: s.marks }

/-- The ids that a store holds. -/
def ids (s : IdempotencyStore) : List Ident := s.marks.map Prod.fst

section Calls

variable (mark : IdempotencyStore → Ident → Span → IdempotencyStore)

/-- The store after a call, if `mark` is how it marks ids. -/
def afterCall (s : IdempotencyStore) : StoreCall → IdempotencyStore
  | .mark id now => mark s id now
  | .ask .. => s

/-- The store after several calls. -/
def afterCalls (s : IdempotencyStore) (calls : List StoreCall) : IdempotencyStore :=
  calls.foldl (afterCall mark) s

/-- What a store answers to those of several calls that ask. -/
def answers : IdempotencyStore → List StoreCall → List Bool
  | _, [] => []
  | s, .mark id now :: rest => answers (mark s id now) rest
  | s, .ask id now :: rest => s.isProcessed id now :: answers s rest

/-- Calls that only ask leave a store as it is. -/
theorem afterCalls_of_asks (s : IdempotencyStore) {calls : List StoreCall}
    (h : ∀ c ∈ calls, c.isAsk = true) : s.afterCalls mark calls = s := by
  induction calls with
  | nil => rfl
  | cons c rest ih =>
    obtain ⟨hc, hrest⟩ := List.forall_mem_cons.mp h
    cases c with
    | mark id now => cases hc
    | ask id now => exact ih hrest

/-- Several calls, and then others. -/
theorem afterCalls_append (s : IdempotencyStore) (calls calls' : List StoreCall) :
    s.afterCalls mark (calls ++ calls') = (s.afterCalls mark calls).afterCalls mark calls' :=
  List.foldl_append

end Calls

/-! ## Single marks -/

/-- A mark that counts at a reading has counted at every earlier one. -/
theorem fresh_of_le {earlier later marked : Span} (hle : earlier ≤ later)
    (h : s.fresh later marked = true) : s.fresh earlier marked = true := by
  rw [fresh_iff] at h ⊢
  exact Nat.le_trans hle h

/-- An id that has just been marked counts. -/
theorem fresh_self (s : IdempotencyStore) (now : Span) : s.fresh now now = true :=
  fresh_iff.mpr (Nat.le_add_right _ _)

/-- An id is held exactly if it has a mark. -/
theorem mark?_isSome_iff : (s.mark? id).isSome = true ↔ id ∈ s.ids := by
  unfold mark? ids
  rw [Option.isSome_map, List.find?_isSome, List.mem_map]
  simp only [decide_eq_true_eq]

/-- Where no id is held twice, the mark of an id is the one it is held with. -/
theorem mark?_eq_some_iff (h : s.ids.Nodup) {marked : Span} :
    s.mark? id = some marked ↔ (id, marked) ∈ s.marks := by
  unfold mark?
  rw [Option.map_eq_some_iff]
  constructor
  · rintro ⟨entry, hfind, rfl⟩
    have hid : entry.1 = id := by simpa using List.find?_some hfind
    exact hid ▸ List.mem_of_find?_eq_some hfind
  · intro hmem
    obtain ⟨entry, hfind⟩ := Option.isSome_iff_exists.mp
      ((List.find?_isSome (p := fun entry : Ident × Span => entry.1 = id)).mpr
        ⟨(id, marked), hmem, decide_eq_true rfl⟩)
    have hid : entry.1 = id := by simpa using List.find?_some hfind
    have hsame : entry = (id, marked) :=
      List.inj_on_of_nodup_map h (List.mem_of_find?_eq_some hfind) hmem hid
    exact ⟨entry, hfind, congrArg Prod.snd hsame⟩

/-- A mark leaves no id twice in the store. -/
theorem nodup_ids_markProcessed (h : s.ids.Nodup) (id : Ident) (now : Span) :
    (s.markProcessed id now).ids.Nodup := by
  refine List.nodup_cons.mpr ⟨fun hmem => ?_, h.sublist (List.filter_sublist.map _)⟩
  -- The other entries of the id are dropped along with those that have expired.
  obtain ⟨entry, hentry, hid⟩ := List.mem_map.mp hmem
  have hkept := (Bool.and_eq_true_iff.mp (List.mem_filter.mp hentry).2).2
  have hother : entry.1 ≠ id := by simpa using hkept
  exact hother hid

/-- When another id is marked, a mark is kept if it still counts, and dropped if it does not. -/
theorem mark?_markProcessed_of_ne (h : s.ids.Nodup) {other : Ident} (hne : id ≠ other)
    (now : Span) : (s.markProcessed other now).mark? id = (s.mark? id).filter (s.fresh now) := by
  refine Option.ext fun marked => ?_
  rw [mark?_eq_some_iff (nodup_ids_markProcessed h other now), Option.filter_eq_some_iff,
    mark?_eq_some_iff h]
  show (id, marked) ∈ (other, now) :: s.marks.filter _ ↔ _
  simp [hne]

/-! ## What the dropping store holds -/

/-- Of each id the store holds the latest mark among some calls, if that still counted at the
reading `cut`. -/
structure Abridges (s : IdempotencyStore) (past : List StoreCall) (cut : Span) : Prop where
  nodup : s.ids.Nodup
  held : ∀ id, s.mark? id = (latest? past id).filter (s.fresh cut)

namespace Abridges

variable {past : List StoreCall} {cut : Span}

/-- A new store holds nothing. -/
theorem create (retention cut : Span) : (create retention).Abridges [] cut :=
  ⟨List.nodup_nil, fun _ => rfl⟩

variable (h : s.Abridges past cut)
include h

/-- A call that asks changes nothing. -/
theorem ask (id : Ident) (now : Span) : s.Abridges (past ++ [.ask id now]) cut := by
  refine ⟨h.nodup, fun other => ?_⟩
  rw [latest?_concat]
  exact h.held other

/-- A call that marks an id moves the cut to its reading. -/
theorem mark (id : Ident) (hle : cut ≤ now) :
    (s.markProcessed id now).Abridges (past ++ [.mark id now]) now := by
  refine ⟨nodup_ids_markProcessed h.nodup id now, fun other => ?_⟩
  rw [latest?_concat]
  by_cases hother : other = id
  · subst hother
    have hcounts := (s.markProcessed other now).fresh_self now
    rw [markOf?_mark_self, Option.some_or, Option.filter_some_pos hcounts]
    exact s.mark?_markProcessed_self other now
  · rw [markOf?_mark_of_ne (Ne.symm hother), Option.none_or,
      mark?_markProcessed_of_ne h.nodup hother, h.held]
    -- What counts at the new cut has counted at the old one.
    refine Option.ext fun marked => ?_
    simp only [Option.filter_eq_some_iff]
    exact ⟨fun ⟨⟨hmark, _⟩, hfresh⟩ => ⟨hmark, hfresh⟩,
      fun ⟨hmark, hfresh⟩ => ⟨⟨hmark, fresh_of_le hle hfresh⟩, hfresh⟩⟩

/-- Calls in order move the cut on, at most to the reading of the last of them. -/
theorem afterCalls {calls : List StoreCall} (horder : InOrder calls)
    (hcut : ∀ c ∈ calls, cut ≤ c.time) :
    ∃ cut', (s.afterCalls markProcessed calls).Abridges (past ++ calls) cut' ∧
      ∀ t, cut ≤ t → (∀ c ∈ calls, c.time ≤ t) → cut' ≤ t := by
  induction calls generalizing s past cut with
  | nil => exact ⟨cut, (List.append_nil past).symm ▸ h, fun t ht _ => ht⟩
  | cons c rest ih =>
    obtain ⟨hlater, hrest⟩ := List.pairwise_cons.mp horder
    obtain ⟨hc, hcut'⟩ := List.forall_mem_cons.mp hcut
    rw [← List.singleton_append, ← List.append_assoc]
    cases c with
    | mark id now =>
      obtain ⟨cut', habridges, hlast⟩ := ih (h.mark id hc) hrest hlater
      refine ⟨cut', habridges, fun t _ ht => ?_⟩
      obtain ⟨hnow, ht'⟩ := List.forall_mem_cons.mp ht
      exact hlast t hnow ht'
    | ask id now =>
      obtain ⟨cut', habridges, hlast⟩ := ih (h.ask id now) hrest hcut'
      exact ⟨cut', habridges, fun t ht ht' => hlast t ht (List.forall_mem_cons.mp ht').2⟩

/-- From the cut on, an id counts as processed exactly if its latest mark has not expired. -/
theorem isProcessed_eq (id : Ident) (hle : cut ≤ now) :
    s.isProcessed id now = (latest? past id).any (s.fresh now) := by
  unfold isProcessed
  rw [h.held]
  cases latest? past id with
  | none => rfl
  | some marked =>
    cases hcut : s.fresh cut marked with
    | true => rw [Option.filter_some_pos hcut]
    | false =>
      -- What has expired by the cut has expired for good.
      have hexpired : s.fresh now marked = false := by
        cases hfresh : s.fresh now marked with
        | false => rfl
        | true => exact absurd (fresh_of_le hle hfresh) (Bool.eq_false_iff.mp hcut)
      rw [Option.filter_some_neg hcut]
      exact hexpired.symm

/-- The ids held are those whose latest mark had not expired at the cut. -/
theorem mem_ids_iff (id : Ident) :
    id ∈ s.ids ↔ ∃ marked, latest? past id = some marked ∧ cut.since marked ≤ s.retention := by
  rw [← mark?_isSome_iff, h.held, Option.isSome_iff_exists]
  simp only [Option.filter_eq_some_iff, fresh, decide_eq_true_eq]

end Abridges

/-! ## The store that drops nothing -/

/-- Of each id the store holds the latest mark among some calls. -/
def Recalls (s : IdempotencyStore) (past : List StoreCall) : Prop :=
  ∀ id, s.mark? id = latest? past id

namespace Recalls

variable {past : List StoreCall}

/-- A call that asks changes nothing. -/
theorem ask (h : s.Recalls past) (id : Ident) (now : Span) :
    s.Recalls (past ++ [.ask id now]) := by
  intro other
  rw [latest?_concat]
  exact h other

/-- A mark that drops nothing goes before the older ones. -/
theorem keepMark (h : s.Recalls past) (id : Ident) (now : Span) :
    (s.keepMark id now).Recalls (past ++ [.mark id now]) := by
  intro other
  rw [latest?_concat]
  unfold IdempotencyStore.keepMark mark?
  by_cases hother : id = other
  · subst hother
    rw [markOf?_mark_self, List.find?_cons_of_pos (by simp)]
    rfl
  · rw [markOf?_mark_of_ne hother, List.find?_cons_of_neg (by simpa using hother)]
    exact h other

end Recalls

/-- Which marks count is a matter of the retention time only. -/
theorem fresh_congr {s' : IdempotencyStore} (h : s.retention = s'.retention) :
    s.fresh = s'.fresh := by
  unfold fresh
  rw [h]

/-- The dropping store answers as the one that drops nothing. -/
theorem Abridges.answers_eq {s' : IdempotencyStore} {past : List StoreCall} {cut : Span}
    (h : s.Abridges past cut) (hrecalls : s'.Recalls past) (hretention : s.retention = s'.retention)
    {calls : List StoreCall} (horder : InOrder calls) (hcut : ∀ c ∈ calls, cut ≤ c.time) :
    s.answers markProcessed calls = s'.answers keepMark calls := by
  induction calls generalizing s s' past cut with
  | nil => rfl
  | cons c rest ih =>
    obtain ⟨hlater, hrest⟩ := List.pairwise_cons.mp horder
    obtain ⟨hc, hcut'⟩ := List.forall_mem_cons.mp hcut
    cases c with
    | mark id now => exact ih (h.mark id hc) (hrecalls.keepMark id now) hretention hrest hlater
    | ask id now =>
      have hsame : s.isProcessed id now = s'.isProcessed id now := by
        have hcuts : s.isProcessed id now = (latest? past id).any (s.fresh now) :=
          h.isProcessed_eq id hc
        rw [hcuts, fresh_congr hretention, ← hrecalls id]
        rfl
      have hlaterSame := ih (h.ask id now) (hrecalls.ask id now) hretention hrest hcut'
      unfold answers
      rw [hsame, hlaterSame]

/-! ## Dropping is invisible -/

/-- Calls leave the retention time as it is. -/
theorem retention_afterCalls (s : IdempotencyStore) (calls : List StoreCall) :
    (s.afterCalls markProcessed calls).retention = s.retention := by
  induction calls generalizing s with
  | nil => rfl
  | cons c rest ih =>
    cases c with
    | mark id now => exact ih (s.markProcessed id now)
    | ask id now => exact ih s

/-- After calls in order a store abridges them, at a cut that none of them comes behind. -/
theorem abridges_create (retention : Span) {calls : List StoreCall} (horder : InOrder calls)
    (hbefore : ∀ c ∈ calls, c.time ≤ now) :
    ∃ cut, ((create retention).afterCalls markProcessed calls).Abridges calls cut ∧ cut ≤ now := by
  have hnew := Abridges.create retention Span.zero
  obtain ⟨cut, habridges, hcut⟩ := hnew.afterCalls horder fun c _ => Nat.zero_le c.time.nanos
  exact ⟨cut, habridges, hcut now (Nat.zero_le _) hbefore⟩

/-- A store answers by the latest mark of the id. -/
theorem isProcessed_afterCalls_iff (retention : Span) {before : List StoreCall}
    (horder : InOrder before) (hbefore : ∀ c ∈ before, c.time ≤ now) :
    ((create retention).afterCalls markProcessed before).isProcessed id now = true ↔
      ∃ marked, latest? before id = some marked ∧ now.since marked ≤ retention := by
  obtain ⟨cut, habridges, hcut⟩ := abridges_create retention horder hbefore
  rw [habridges.isProcessed_eq id hcut, Option.any_eq_true]
  simp only [fresh, retention_afterCalls, decide_eq_true_eq]
  rfl

/-- Right after a mark a store holds what has not expired, each id once. -/
theorem ids_afterCalls_perm (retention : Span) {before : List StoreCall}
    (horder : InOrder before) (hbefore : ∀ c ∈ before, c.time ≤ now) (id : Ident) :
    ((create retention).afterCalls markProcessed (before ++ [.mark id now])).ids.Perm
      (unexpired retention now (before ++ [.mark id now])) := by
  obtain ⟨cut, habridges, hcut⟩ := abridges_create retention horder hbefore
  rw [afterCalls_append]
  have hmarked := habridges.mark id hcut
  refine (List.perm_ext_iff_of_nodup hmarked.nodup (nodup_unexpired _ _ _)).mpr
    fun other => ?_
  have hretention : (((create retention).afterCalls markProcessed before).markProcessed id
      now).retention = retention := retention_afterCalls _ before
  rw [hmarked.mem_ids_iff, mem_unexpired_iff, hretention]

/-- **Dropping expired marks is invisible.** Take calls on a new store whose clock does not run
backwards. The store answers as one that drops nothing. In particular, an id counts as processed
exactly if it was marked before and no more than the retention time has passed since its latest
mark. After a mark, and until the next one, the store holds exactly the ids whose latest mark had
not expired then, each of them once, that of the mark among them; its size is their number. -/
theorem dropping_is_invisible (retention : Span) {calls : List StoreCall} (h : InOrder calls) :
    (create retention).answers markProcessed calls = (create retention).answers keepMark calls ∧
      (∀ before id now after, calls = before ++ .ask id now :: after →
        (((create retention).afterCalls markProcessed before).isProcessed id now = true ↔
          ∃ marked, latest? before id = some marked ∧ now.since marked ≤ retention)) ∧
      (∀ before id now asks after, calls = before ++ .mark id now :: (asks ++ after) →
        (∀ c ∈ asks, c.isAsk = true) →
        let s := (create retention).afterCalls markProcessed (before ++ .mark id now :: asks)
        let expected := unexpired retention now (before ++ [.mark id now])
        s.ids.Perm expected ∧ id ∈ expected ∧ s.size = expected.length) := by
  refine ⟨?_, fun before id now after hsplit => ?_, fun before id now asks after hsplit hasks => ?_⟩
  · exact (Abridges.create retention Span.zero).answers_eq (fun _ => rfl) rfl h
      fun c _ => Nat.zero_le c.time.nanos
  · subst hsplit
    obtain ⟨horder, -, hearlier⟩ := List.pairwise_append.mp h
    exact isProcessed_afterCalls_iff retention horder fun c hc => hearlier c hc _ List.mem_cons_self
  · subst hsplit
    obtain ⟨horder, -, hearlier⟩ := List.pairwise_append.mp h
    intro s expected
    -- The calls that only ask leave the store as the mark left it.
    have hs : s = (create retention).afterCalls markProcessed (before ++ [.mark id now]) := by
      unfold s
      rw [List.append_cons, afterCalls_append, afterCalls_of_asks _ _ hasks]
    have hperm : s.ids.Perm expected := by
      rw [hs]
      exact ids_afterCalls_perm retention horder
        (fun c hc => hearlier c hc _ List.mem_cons_self) id
    refine ⟨hperm, mem_unexpired_iff.mpr ⟨now, ?_, ?_⟩, ?_⟩
    · rw [latest?_concat, markOf?_mark_self, Option.some_or]
    · exact of_decide_eq_true ((create retention).fresh_self now)
    · exact (List.length_map Prod.fst).symm.trans hperm.length_eq

/-- Two ids, `a` marked again after it has expired, and both asked for at the last reading at which
they count and after it. -/
def remarked : List StoreCall :=
  let a := Ident.text "a"
  let b := Ident.text "b"
  [.ask a ⟨0⟩, .mark a ⟨0⟩, .ask a ⟨10⟩, .ask a ⟨11⟩, .mark b ⟨11⟩, .ask a ⟨11⟩, .mark a ⟨21⟩,
    .ask b ⟨21⟩, .ask b ⟨22⟩, .ask a ⟨31⟩]

/-- With marks kept for ten nanoseconds, the mark of `b` drops the one of `a`, the second mark of
`a` keeps that of `b`, and no answer tells of it. -/
theorem dropping_is_invisible_remarked :
    InOrder remarked ∧
      (create ⟨10⟩).answers keepMark remarked = [false, true, false, false, true, false, true] ∧
      ((create ⟨10⟩).afterCalls markProcessed (remarked.take 6)).size = 1 ∧
      ((create ⟨10⟩).afterCalls markProcessed remarked).size = 2 ∧
      ¬ ∃ marked, latest? (remarked.take 3) (.text "a") = some marked ∧
        Span.since ⟨11⟩ marked ≤ ⟨10⟩ := by
  have horder : InOrder remarked := by decide
  obtain ⟨hanswers, hasked, hheld⟩ := dropping_is_invisible ⟨10⟩ horder
  refine ⟨horder, hanswers.symm.trans (by decide), ?_, ?_, ?_⟩
  · obtain ⟨-, -, hsize⟩ := hheld (remarked.take 4) (.text "b") ⟨11⟩ [.ask (.text "a") ⟨11⟩]
      (remarked.drop 6) rfl (by decide)
    exact hsize.trans (by decide)
  · obtain ⟨-, -, hsize⟩ := hheld (remarked.take 6) (.text "a") ⟨21⟩ (remarked.drop 7) [] rfl
      (by decide)
    exact hsize.trans (by decide)
  · exact mt (hasked (remarked.take 3) (.text "a") ⟨11⟩ (remarked.drop 4) rfl).mpr (by decide)

end IdempotencyStore

end MessageBroker
