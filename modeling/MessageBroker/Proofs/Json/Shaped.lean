import Mathlib.Tactic.Choose
import MessageBroker.Json.Shape

/-!
# What is read has the shape that was asked for

`HasShape` says which values a reader of a shape may give: integers within the bounds, a text that
writes an instant, an object with the fields of a record. `hasShape_of_decode` says that it gives no
others, whatever the text. One round of the readers of nested values gives values of their shapes if
the next round does, so this goes by induction on the fuel (`Reader.Shaped`).
-/

namespace MessageBroker.Json

/-- The value is one of that shape. In a record, every field is there, and nothing else. -/
inductive HasShape : Shape → Json → Prop
  | any (v : Json) : HasShape .any v
  | unit : HasShape .unit .null
  | boolean (b : Bool) : HasShape .boolean (.boolean b)
  | integer {range : IntegerRange} {i : Int} (h : range.least ≤ i ∧ i ≤ range.greatest) :
      HasShape (.integer range) (.integer i)
  | string (s : String) : HasShape .string (.string s)
  | timestamp {s : String} {t : Instant} (h : Instant.ofText s = .ok t) :
      HasShape .timestamp (.string s)
  | absent (inner : Shape) : HasShape (.optional inner) .null
  | present {inner : Shape} {v : Json} (h : HasShape inner v) : HasShape (.optional inner) v
  | list {item : Shape} {items : List Json} (h : ∀ v ∈ items, HasShape item v) :
      HasShape (.list item) (.array items)
  | map {inner : Shape} {members : List (String × Json)} (h : ∀ m ∈ members, HasShape inner m.2) :
      HasShape (.map inner) (.object members)
  | record {name : String} {fields : List (String × Shape)} {members : List (String × Json)}
      (hall : ∀ field ∈ fields, Entries.find? field.1 members ≠ none)
      (shapeOf : ∀ m ∈ members, Shape) (hfield : ∀ m hm, (m.1, shapeOf m hm) ∈ fields)
      (h : ∀ m hm, HasShape (shapeOf m hm) m.2) : HasShape (.record name fields) (.object members)

/-- Each member is a field of the record, and has its shape. -/
def AreFields (fields : List (String × Shape)) (members : List (String × Json)) : Prop :=
  ∀ m ∈ members, ∃ shape, (m.1, shape) ∈ fields ∧ HasShape shape m.2

/-- The table of all fields is a record. -/
theorem AreFields.hasShape {fields : List (String × Shape)} {members : List (String × Json)}
    (h : AreFields fields members) (hnames : members.map Prod.fst = fields.map Prod.fst)
    (name : String) : HasShape (.record name fields) (.ofMembers members) := by
  choose shapeOf hfield hshape using fun m hm => h m (Entries.mem_of_mem_ofList hm)
  refine .record (fun field hmem => Entries.find?_ofList_ne_none ?_) shapeOf hfield hshape
  rw [hnames]
  exact List.mem_map_of_mem hmem

/-- A field of a record is found in it, and has its shape, if no name occurs twice among the
fields. -/
theorem HasShape.field {name : String} {fields : List (String × Shape)} {v : Json}
    (h : HasShape (.record name fields) v) (hnodup : (fields.map Prod.fst).Nodup) {key : String}
    {shape : Shape} (hfield : (key, shape) ∈ fields) :
    ∃ found, v.member? key = some found ∧ HasShape shape found := by
  cases h with
  | @record _ _ members hall shapeOf hmem hshape =>
    obtain ⟨found, hfound⟩ := Option.ne_none_iff_exists'.mp (hall _ hfield)
    have hm : (key, found) ∈ members := Entries.mem_of_find? hfound
    have hsame := (Entries.find?_eq_some_iff_of_nodup hnodup).mpr (hmem _ hm)
    rw [(Entries.find?_eq_some_iff_of_nodup hnodup).mpr hfield] at hsame
    exact ⟨found, hfound, Option.some.inj hsame ▸ hshape _ hm⟩

/-- A string is one. -/
theorem HasShape.exists_string {v : Json} (h : HasShape .string v) : ∃ s, v = .string s := by
  cases h with
  | string s => exact ⟨s, rfl⟩

/-- A timestamp is the text of an instant. -/
theorem HasShape.exists_instant {v : Json} (h : HasShape .timestamp v) :
    ∃ s t, v = .string s ∧ Instant.ofText s = .ok t := by
  cases h with
  | timestamp ht => exact ⟨_, _, rfl, ht⟩

/-- An integer that may not be negative is a natural number. -/
theorem HasShape.exists_natural {range : IntegerRange} {v : Json}
    (h : HasShape (.integer range) v) (hrange : range.least = 0) :
    ∃ n : Nat, v = .natural n ∧ (n : Int) ≤ range.greatest := by
  cases h with
  | integer h =>
    obtain ⟨n, rfl⟩ := Int.eq_ofNat_of_zero_le (hrange ▸ h.1)
    exact ⟨n, rfl, h.2⟩

namespace Reader

variable {α β : Type} {P : α → Prop} {Q : β → Prop}

/-! ## What a reader gives -/

/-- Whatever the reader gives has the property. -/
def Gives (p : Reader α) (P : α → Prop) : Prop := ∀ c a c', p c = .ok (a, c') → P a

/-- A result that is given without reading. -/
theorem gives_pure {a : α} (h : P a) : Gives (pure a) P := by
  rintro c _ _ ⟨⟩
  exact h

/-- A fault gives nothing. -/
theorem gives_fail (fault : Fault) : Gives (fail fault : Reader α) P := by
  rintro c _ _ ⟨⟩

/-- One reader behind the other. -/
theorem Gives.bind {p : Reader α} {f : α → Reader β} (hp : Gives p P)
    (hf : ∀ a, P a → Gives (f a) Q) : Gives (p >>= f) Q := by
  intro c b c' h
  have hbind : (p >>= f) c = (p c).bind fun s => f s.1 s.2 := rfl
  rw [hbind] at h
  cases hfirst : p c with
  | error e =>
    rw [hfirst] at h
    cases h
  | ok s =>
    rw [hfirst] at h
    exact hf s.1 (hp c s.1 s.2 hfirst) s.2 b c' h

/-- What has one property has another. -/
theorem Gives.mono {p : Reader α} {P' : α → Prop} (hp : Gives p P) (h : ∀ a, P a → P' a) :
    Gives p P' := fun c a c' hc => h a (hp c a c' hc)

/-- A reader behind one of which nothing need be known. -/
theorem gives_bind {p : Reader α} {f : α → Reader β} (hf : ∀ a, Gives (f a) Q) :
    Gives (p >>= f) Q :=
  Gives.bind (P := fun _ => True) (fun _ _ _ _ => trivial) fun a _ => hf a

/-- A result that is changed. -/
theorem gives_map {p : Reader α} {f : α → β} (h : ∀ a, Q (f a)) : Gives (f <$> p) Q :=
  gives_bind fun a => gives_pure (h a)

/-- A complaint gives nothing. -/
theorem gives_complain (expected : String) (c : Char) : Gives (complain expected c : Reader α) P :=
  gives_bind fun _ => gives_fail _

/-- A closed bracket gives the result that stood in it. -/
theorem gives_close {ending : Cursor → Cursor × Option Fault} {result : Except Fault α}
    (h : ∀ a, result = .ok a → P a) : Gives (close ending result) P := by
  intro c a c' hc
  unfold close at hc
  dsimp only at hc
  split at hc
  · cases hc
  · cases hc
  · cases hc
    exact h a rfl

/-! ## Single values -/

/-- An integer is within its bounds. -/
theorem gives_integer (range : IntegerRange) :
    Gives (integer range) (HasShape (.integer range)) := by
  refine gives_bind fun c => ?_
  split
  · refine gives_bind fun n => ?_
    split
    · rename_i i
      split
      · rename_i h
        exact gives_pure (.integer h)
      · exact gives_fail _
    · exact gives_fail _
  · exact gives_complain _ _

/-- A boolean. -/
theorem gives_boolean (expected : String) : Gives (boolean expected) (HasShape .boolean) := by
  refine gives_bind fun c => ?_
  split
  · exact gives_bind fun _ => gives_pure (.boolean true)
  · exact gives_bind fun _ => gives_pure (.boolean false)
  · exact gives_complain _ _

/-- Null. -/
theorem gives_unit (expected : String) : Gives (unit expected) fun v => v = .null := by
  refine gives_bind fun c => ?_
  split
  · exact gives_bind fun _ => gives_pure rfl
  · exact gives_complain _ _

/-- The text of an instant. -/
theorem gives_timestamp (expected : String) :
    Gives (timestamp expected) (HasShape .timestamp) := by
  refine gives_bind fun s => ?_
  split
  · rename_i t h
    exact gives_pure (.timestamp h)
  · exact gives_fail _

/-! ## Nested values -/

/-- Fields that are gathered from members of a record are fields of it. -/
theorem areFields_of_gather {fields all : List (String × Shape)}
    {members found : List (String × Json)} (hsub : fields ⊆ all) (h : AreFields all members)
    (hfound : gather members fields = .ok found) :
    AreFields all found ∧ found.map Prod.fst = fields.map Prod.fst := by
  induction fields generalizing found with
  | nil =>
    cases hfound
    exact ⟨fun _ hm => absurd hm List.not_mem_nil, rfl⟩
  | cons field rest ih =>
    obtain ⟨name, shape⟩ := field
    obtain ⟨hfield, hrest⟩ := List.cons_subset.mp hsub
    -- Whatever stands for the field, the others are gathered behind it.
    have hcons : ∀ v, (∃ s, (name, s) ∈ all ∧ HasShape s v) →
        (gather members rest).map (List.cons (name, v)) = .ok found →
        AreFields all found ∧ found.map Prod.fst = (name, shape).1 :: rest.map Prod.fst := by
      intro v hv hmap
      cases hothers : gather members rest with
      | error e =>
        rw [hothers] at hmap
        cases hmap
      | ok others =>
        rw [hothers] at hmap
        cases hmap
        obtain ⟨hare, hnames⟩ := ih hrest hothers
        exact ⟨List.forall_mem_cons.mpr ⟨hv, hare⟩, by rw [List.map_cons, hnames]⟩
    unfold gather at hfound
    cases hv : Entries.find? name members with
    | some v =>
      rw [hv] at hfound
      exact hcons v (h _ (Entries.mem_of_find? hv)) hfound
    | none =>
      rw [hv] at hfound
      cases shape with
      | optional inner => exact hcons .null ⟨_, hfield, .absent inner⟩ hfound
      | _ => cases hfound

/-- The readers of nested values give values of their shapes, with that fuel. -/
structure Shaped (fuel : Nat) : Prop where
  value : ∀ depth shape, Gives (value fuel depth shape) (HasShape shape)
  items : ∀ depth item isFirst,
    Gives (items fuel depth item isFirst) fun found => ∀ v ∈ found, HasShape item v
  members : ∀ depth inner isFirst done, (∀ m ∈ done, HasShape inner m.2) →
    Gives (members fuel depth inner isFirst done) fun found => ∀ m ∈ found, HasShape inner m.2
  sequence : ∀ depth fields isFirst, Gives (sequence fuel depth fields isFirst) fun found =>
    AreFields fields found ∧ found.map Prod.fst = (fields.map Prod.fst).take found.length
  fieldMembers : ∀ depth fields isFirst done, AreFields fields done →
    Gives (fieldMembers fuel depth fields isFirst done) fun result =>
      ∀ found, result = .ok found → AreFields fields found

/-- Without fuel they give nothing. -/
theorem shaped_zero : Shaped 0 where
  value _ _ := by
    rw [Reader.value]
    exact gives_fail _
  items _ _ _ := by
    rw [Reader.items]
    exact gives_fail _
  members _ _ _ _ _ := by
    rw [Reader.members]
    exact gives_fail _
  sequence _ _ _ := by
    rw [Reader.sequence]
    exact gives_fail _
  fieldMembers _ _ _ _ _ := by
    rw [Reader.fieldMembers]
    exact gives_fail _

section Step

variable {fuel : Nat} (h : Shaped fuel)
include h

/-- A record has its shape if its fields do, in either of its forms. -/
theorem gives_record (depth : Nat) (name : String) (fields : List (String × Shape)) :
    Gives (value (fuel + 1) depth (.record name fields)) (HasShape (.record name fields)) := by
  rw [value]
  refine gives_bind fun c => ?_
  split
  · refine gives_bind fun inner => (h.sequence inner fields true).bind fun found hfound => ?_
    refine gives_close fun v hv => ?_
    -- If no field is missing, the names are those of all fields.
    split at hv
    · cases hv
    · rename_i hlen
      cases hv
      have hall : (fields.map Prod.fst).length ≤ found.length := by
        rw [List.length_map]
        exact Nat.not_lt.mp hlen
      exact hfound.1.hasShape (hfound.2.trans (List.take_of_length_le hall)) name
  · refine gives_bind fun inner => (h.fieldMembers inner fields true []
      (fun _ hm => absurd hm List.not_mem_nil)).bind fun result hresult => ?_
    refine gives_close fun v hv => ?_
    cases result with
    | error fault => cases hv
    | ok members =>
      change (gather members fields).map Json.ofMembers = .ok v at hv
      cases hgather : gather members fields with
      | error fault =>
        rw [hgather] at hv
        cases hv
      | ok found =>
        rw [hgather] at hv
        cases hv
        obtain ⟨hare, hnames⟩ := areFields_of_gather (List.Subset.refl _) (hresult _ rfl) hgather
        exact hare.hasShape hnames name
  · exact gives_complain _ _

/-- A value has its shape if what lies in it does. -/
theorem gives_value (depth : Nat) (shape : Shape) :
    Gives (value (fuel + 1) depth shape) (HasShape shape) := by
  cases shape with
  | record name fields => exact gives_record h depth name fields
  | any => exact fun c v c' _ => .any v
  | unit =>
    rw [value]
    exact (gives_unit _).mono fun v hv => hv ▸ .unit
  | boolean =>
    rw [value]
    exact gives_boolean _
  | integer range =>
    rw [value]
    exact gives_integer range
  | string =>
    rw [value]
    exact gives_map .string
  | timestamp =>
    rw [value]
    exact gives_timestamp _
  | optional inner =>
    rw [value]
    refine gives_bind fun _ => gives_bind fun next => ?_
    split
    · exact (gives_unit _).mono fun v hv => hv ▸ .absent inner
    · exact (h.value depth inner).mono fun v hv => .present hv
  | list item =>
    rw [value]
    refine gives_bind fun c => ?_
    split
    · refine gives_bind fun inner => (h.items inner item true).bind fun found hfound => ?_
      refine gives_close ?_
      rintro _ ⟨⟩
      exact .list hfound
    · exact gives_complain _ _
  | map inner =>
    rw [value]
    refine gives_bind fun c => ?_
    split
    · refine gives_bind fun depth => (h.members depth inner true []
        (fun _ hm => absurd hm List.not_mem_nil)).bind fun found hfound => ?_
      refine gives_close ?_
      rintro _ ⟨⟩
      exact .map hfound
    · exact gives_complain _ _

/-- Items have their shape if the first of them and the others do. -/
theorem gives_items (depth : Nat) (item : Shape) (isFirst : Bool) :
    Gives (items (fuel + 1) depth item isFirst) fun found => ∀ v ∈ found, HasShape item v := by
  rw [items]
  refine gives_bind fun more => ?_
  split
  · refine (h.value depth item).bind fun head hhead => ?_
    refine (h.items depth item false).bind fun rest hrest => ?_
    exact gives_pure (List.forall_mem_cons.mpr ⟨hhead, hrest⟩)
  · exact gives_pure fun _ hv => absurd hv List.not_mem_nil

/-- Members have their shape if those that are there and the others do. -/
theorem gives_members (depth : Nat) (inner : Shape) (isFirst : Bool) (done : List (String × Json))
    (hdone : ∀ m ∈ done, HasShape inner m.2) :
    Gives (members (fuel + 1) depth inner isFirst done)
      fun found => ∀ m ∈ found, HasShape inner m.2 := by
  rw [members]
  refine gives_bind fun more => ?_
  split
  · refine gives_bind fun name => gives_bind fun _ => ?_
    refine (h.value depth inner).bind fun v hv => h.members depth inner false _ fun m hm => ?_
    rcases Entries.mem_insert hm with rfl | hold
    · exact hv
    · exact hdone m hold
  · exact gives_pure hdone

/-- Fields that stand in an array are the first fields of the record. -/
theorem gives_sequence (depth : Nat) (fields : List (String × Shape)) (isFirst : Bool) :
    Gives (sequence (fuel + 1) depth fields isFirst) fun found =>
      AreFields fields found ∧
        found.map Prod.fst = (fields.map Prod.fst).take found.length := by
  have hnone : AreFields fields [] ∧
      ([] : List (String × Json)).map Prod.fst = (fields.map Prod.fst).take 0 :=
    ⟨fun _ hm => absurd hm List.not_mem_nil, rfl⟩
  cases fields with
  | nil =>
    rw [sequence]
    exact gives_pure hnone
  | cons field rest =>
    obtain ⟨name, shape⟩ := field
    rw [sequence]
    refine gives_bind fun more => ?_
    split
    · refine (h.value depth shape).bind fun v hv => ?_
      refine (h.sequence depth rest false).bind fun others hothers => gives_pure ⟨?_, ?_⟩
      · refine List.forall_mem_cons.mpr ⟨⟨shape, List.mem_cons_self, hv⟩, fun m hm => ?_⟩
        obtain ⟨s, hmem, hs⟩ := hothers.1 m hm
        exact ⟨s, List.mem_cons_of_mem _ hmem, hs⟩
      · rw [List.map_cons, hothers.2]
        rfl
    · exact gives_pure hnone

/-- Members of a record have the shapes of their fields if those that are there and the others
do. -/
theorem gives_fieldMembers (depth : Nat) (fields : List (String × Shape)) (isFirst : Bool)
    (done : List (String × Json)) (hdone : AreFields fields done) :
    Gives (fieldMembers (fuel + 1) depth fields isFirst done) fun result =>
      ∀ found, result = .ok found → AreFields fields found := by
  rw [fieldMembers]
  refine gives_bind fun more => ?_
  split
  · refine gives_bind fun name => ?_
    split
    · exact gives_bind fun _ => gives_bind fun _ => h.fieldMembers depth fields false done hdone
    · rename_i shape hshape
      split
      · refine gives_pure ?_
        rintro _ ⟨⟩
      · refine gives_bind fun _ => (h.value depth shape).bind fun v hv => ?_
        refine h.fieldMembers depth fields false _ fun m hm => ?_
        rcases Entries.mem_insert hm with rfl | hold
        · exact ⟨shape, Entries.mem_of_find? hshape, hv⟩
        · exact hdone m hold
  · exact gives_pure fun found hfound => Except.ok.inj hfound ▸ hdone

end Step

/-- With any fuel, the readers of nested values give values of their shapes. -/
theorem shaped (fuel : Nat) : Shaped fuel := by
  induction fuel with
  | zero => exact shaped_zero
  | succ fuel ih =>
    exact ⟨gives_value ih, gives_items ih, gives_members ih, gives_sequence ih,
      gives_fieldMembers ih⟩

end Reader

/-- Whatever is read of a text has the shape that was asked for. -/
theorem hasShape_of_decode {shape : Shape} {bytes : List UInt8} {v : Json}
    (h : decode shape bytes = .ok v) : HasShape shape v := by
  obtain ⟨text, htext⟩ : ∃ p : Reader Json, p = (do
      let found ← Reader.value (2 * bytes.length + 4) greatestDepth shape
      Reader.space
      if (← Reader.peek).isSome then Reader.failNext .trailingCharacters
      return found) := ⟨_, rfl⟩
  have hgives : Reader.Gives text (HasShape shape) := by
    rw [htext]
    refine ((Reader.shaped _).value greatestDepth shape).bind fun found hfound => ?_
    refine Reader.gives_bind fun _ => Reader.gives_bind fun next => ?_
    split
    · exact Reader.gives_bind fun _ => Reader.gives_pure hfound
    · exact Reader.gives_pure hfound
  have hdecode : decode shape bytes = (text (Cursor.start bytes)).map Prod.fst := by
    rw [htext]
    rfl
  rw [hdecode] at h
  cases htext : text (Cursor.start bytes) with
  | error e =>
    rw [htext] at h
    cases h
  | ok s =>
    rw [htext] at h
    cases h
    exact hgives _ s.1 s.2 htext

end MessageBroker.Json
