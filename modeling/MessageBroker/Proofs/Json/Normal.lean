import Mathlib.Data.List.Forall2
import MessageBroker.Json.Shape
import MessageBroker.Json.Writer

/-!
# Written values and their shapes

`Fits` says of which values a text of a shape is written: values of any kind whose numbers are
integers that 64 bits hold, integers within bounds, lists, and objects with the fields of a record.
What is read of such a text is the value in normal form (`sorted`): the members of every object are
in increasing order of name. A value that keeps this order already (`Ordered`) is its own normal
form.
-/

namespace MessageBroker.Json

/-! ## Normal form -/

mutual

/-- The value with the members of each object in increasing order of name; of several members with
one name, the last one counts. -/
def sorted : Json → Json
  | .array items => .array (sortedItems items)
  | .object members => .object (Entries.ofList (sortedMembers members))
  | .null => .null
  | .boolean b => .boolean b
  | .number n => .number n
  | .string s => .string s

/-- The normal forms of items. -/
def sortedItems : List Json → List Json
  | [] => []
  | item :: rest => sorted item :: sortedItems rest

/-- Members with the normal forms of their values. -/
def sortedMembers : List (String × Json) → List (String × Json)
  | [] => []
  | (name, value) :: rest => (name, sorted value) :: sortedMembers rest

end

/-- Each item is brought into normal form. -/
theorem sortedItems_eq (items : List Json) : sortedItems items = items.map sorted := by
  induction items with
  | nil => rfl
  | cons item rest ih =>
    unfold sortedItems
    rw [ih]
    rfl

/-- Each member is brought into normal form. -/
theorem sortedMembers_eq (members : List (String × Json)) :
    sortedMembers members = members.map fun m => (m.1, m.2.sorted) := by
  induction members with
  | nil => rfl
  | cons m rest ih =>
    unfold sortedMembers
    rw [ih]
    rfl

/-- The members of all objects are in increasing order of name. -/
inductive Ordered : Json → Prop
  | null : Ordered .null
  | boolean (b : Bool) : Ordered (.boolean b)
  | number (n : Number) : Ordered (.number n)
  | string (s : String) : Ordered (.string s)
  | array {items : List Json} (h : ∀ v ∈ items, Ordered v) : Ordered (.array items)
  | object {members : List (String × Json)} (hnames : Entries.Increasing members)
      (h : ∀ m ∈ members, Ordered m.2) : Ordered (.object members)

/-- A value in order is its own normal form. -/
theorem Ordered.sorted_eq {v : Json} (h : Ordered v) : v.sorted = v := by
  induction h with
  | null | boolean | number | string => rfl
  | array h ih =>
    unfold sorted
    rw [sortedItems_eq, List.map_congr_left ih, List.map_id']
  | @object members hnames h ih =>
    have hsame : members.map (fun m => (m.1, m.2.sorted)) = members.map id :=
      List.map_congr_left fun m hm => congrArg (Prod.mk m.1) (ih m hm)
    unfold sorted
    rw [sortedMembers_eq, hsame, List.map_id, Entries.ofList_eq_of_perm (.refl _) hnames]

/-! ## Depth -/

/-- No item is deeper than the list. -/
theorem depthOfItems_le {items : List Json} {d : Nat} :
    depthOfItems items ≤ d ↔ ∀ v ∈ items, v.depth ≤ d := by
  induction items with
  | nil => simp [depthOfItems]
  | cons item rest ih =>
    unfold depthOfItems
    rw [Nat.max_le, ih, List.forall_mem_cons]

/-- No member is deeper than the list. -/
theorem depthOfMembers_le {members : List (String × Json)} {d : Nat} :
    depthOfMembers members ≤ d ↔ ∀ m ∈ members, m.2.depth ≤ d := by
  induction members with
  | nil => simp [depthOfMembers]
  | cons m rest ih =>
    unfold depthOfMembers
    rw [Nat.max_le, ih, List.forall_mem_cons]

/-! ## Shapes -/

/-- An integer that 64 bits hold, signed or unsigned. -/
def IsWord (i : Int) : Prop := -9223372036854775808 ≤ i ∧ i ≤ greatestWord

/-- What lies between words is a word. -/
theorem IsWord.of_between {least greatest i : Int} (hleast : IsWord least)
    (hgreatest : IsWord greatest) (h : least ≤ i ∧ i ≤ greatest) : IsWord i := by
  unfold IsWord at *
  omega

/-- The value can be written where a text of the shape is expected. -/
inductive Fits : Shape → Json → Prop
  | null : Fits .any .null
  | boolean (b : Bool) : Fits .any (.boolean b)
  | number {i : Int} (h : IsWord i) : Fits .any (.integer i)
  | text (s : String) : Fits .any (.string s)
  | array {items : List Json} (h : ∀ v ∈ items, Fits .any v) : Fits .any (.array items)
  | object {members : List (String × Json)} (h : ∀ m ∈ members, Fits .any m.2) :
      Fits .any (.object members)
  | integer {range : IntegerRange} {i : Int} (hword : IsWord i)
      (h : range.least ≤ i ∧ i ≤ range.greatest) : Fits (.integer range) (.integer i)
  | string (s : String) : Fits .string (.string s)
  | timestamp {s : String} {t : Instant} (h : Instant.ofText s = .ok t) :
      Fits .timestamp (.string s)
  | list {item : Shape} {items : List Json} (h : ∀ v ∈ items, Fits item v) :
      Fits (.list item) (.array items)
  | map {inner : Shape} {members : List (String × Json)} (h : ∀ m ∈ members, Fits inner m.2) :
      Fits (.map inner) (.object members)
  | record {name : String} {fields : List (String × Shape)} {members : List (String × Json)}
      (hnames : members.map Prod.fst = fields.map Prod.fst) (hnodup : (fields.map Prod.fst).Nodup)
      (h : ∀ m ∈ members, ∀ shape, Entries.find? m.1 fields = some shape → Fits shape m.2) :
      Fits (.record name fields) (.object members)

/-- An object whose members are the fields of a record, in their order, can be written as one. -/
theorem Fits.of_fields {name : String} {fields : List (String × Shape)}
    {members : List (String × Json)} (hnodup : (fields.map Prod.fst).Nodup)
    (h : List.Forall₂ (fun m field => m.1 = field.1 ∧ Fits field.2 m.2) members fields) :
    Fits (.record name fields) (.object members) := by
  have hall : members.map Prod.fst = fields.map Prod.fst ∧
      ∀ m ∈ members, ∃ shape, (m.1, shape) ∈ fields ∧ Fits shape m.2 := by
    -- Only the names are needed here; that none occurs twice would not survive the induction.
    clear hnodup
    induction h with
    | nil => exact ⟨rfl, fun _ hm => absurd hm List.not_mem_nil⟩
    | @cons m field members fields hm _ ih =>
      obtain ⟨hname, hfits⟩ := hm
      refine ⟨by rw [List.map_cons, List.map_cons, ih.1, hname], ?_⟩
      refine List.forall_mem_cons.mpr ⟨⟨field.2, hname ▸ List.mem_cons_self, hfits⟩, ?_⟩
      intro other hother
      obtain ⟨shape, hmem, hshape⟩ := ih.2 other hother
      exact ⟨shape, List.mem_cons_of_mem _ hmem, hshape⟩
  refine .record hall.1 hnodup fun m hm shape hfound => ?_
  obtain ⟨shape', hmem, hfits⟩ := hall.2 m hm
  have hsame := (Entries.find?_eq_some_iff_of_nodup hnodup).mpr hmem
  rw [hfound] at hsame
  rwa [Option.some.inj hsame]

/-- The members of an object are found in its normal form, if no name occurs twice. -/
theorem member?_sorted {members : List (String × Json)} (h : (members.map Prod.fst).Nodup)
    (name : String) :
    (sorted (.object members)).member? name = (Entries.find? name members).map sorted := by
  have hnames : ((sortedMembers members).map Prod.fst).Nodup := by
    rw [sortedMembers_eq, List.map_map]
    exact h
  show Entries.find? name (Entries.ofList (sortedMembers members)) = _
  rw [Entries.find?_ofList hnames, sortedMembers_eq, Entries.find?_map]

/-- What is read of a value where arrays and objects may nest so deep: its normal form, or nothing
if it is deeper. -/
def readBack (depth : Nat) (v : Json) : Option Json :=
  if v.depth ≤ depth then some v.sorted else none

/-- Items are read back if none of them is too deep. -/
theorem mapM_readBack (depth : Nat) (items : List Json) : items.mapM (readBack depth) =
    if depthOfItems items ≤ depth then some (sortedItems items) else none := by
  induction items with
  | nil => rfl
  | cons item rest ih =>
    have hdepth : depthOfItems (item :: rest) ≤ depth ↔
        item.depth ≤ depth ∧ depthOfItems rest ≤ depth := Nat.max_le
    have hsorted : sortedItems (item :: rest) = item.sorted :: sortedItems rest := rfl
    have hitem : readBack depth item = if item.depth ≤ depth then some item.sorted else none := rfl
    rw [List.mapM_cons, ih, hitem, hsorted]
    simp only [hdepth]
    by_cases hle : item.depth ≤ depth
    · by_cases hrest : depthOfItems rest ≤ depth
      · rw [if_pos hle, if_pos hrest, if_pos ⟨hle, hrest⟩]
        rfl
      · rw [if_pos hle, if_neg hrest, if_neg fun h => hrest h.2]
        rfl
    · have hnot : ¬ (item.depth ≤ depth ∧ depthOfItems rest ≤ depth) := fun h => hle h.1
      rw [if_neg hle, if_neg hnot]
      rfl

/-- What is read of members where arrays and objects may nest so deep: each is added to those that
are there already, and there is nothing if one of them is deeper. -/
def readMembers (depth : Nat) (members done : List (String × Json)) :
    Option (List (String × Json)) :=
  members.foldlM (fun table m => (readBack depth m.2).map fun v => Entries.insert m.1 v table) done

/-- Behind the first member, the others are added. -/
theorem readMembers_cons (depth : Nat) (m : String × Json) (rest done : List (String × Json)) :
    readMembers depth (m :: rest) done =
      (readBack depth m.2).bind fun v => readMembers depth rest (Entries.insert m.1 v done) := by
  unfold readMembers
  rw [List.foldlM_cons]
  exact Option.bind_map

/-- Members are read back into a table if none of them is too deep. -/
theorem readMembers_eq (depth : Nat) (members done : List (String × Json)) :
    readMembers depth members done =
      if depthOfMembers members ≤ depth then
        some ((sortedMembers members).foldl (fun table m => Entries.insert m.1 m.2 table) done)
      else none := by
  induction members generalizing done with
  | nil => rfl
  | cons m rest ih =>
    have hdepth : depthOfMembers (m :: rest) ≤ depth ↔
        m.2.depth ≤ depth ∧ depthOfMembers rest ≤ depth := Nat.max_le
    have hsorted : sortedMembers (m :: rest) = (m.1, m.2.sorted) :: sortedMembers rest := rfl
    have hm : readBack depth m.2 = if m.2.depth ≤ depth then some m.2.sorted else none := rfl
    rw [readMembers_cons, hm, hsorted]
    simp only [hdepth]
    by_cases hle : m.2.depth ≤ depth
    · rw [if_pos hle, Option.bind_some, ih]
      by_cases hrest : depthOfMembers rest ≤ depth
      · rw [if_pos hrest, if_pos ⟨hle, hrest⟩]
        rfl
      · rw [if_neg hrest, if_neg fun h => hrest h.2]
    · have hnot : ¬ (m.2.depth ≤ depth ∧ depthOfMembers rest ≤ depth) := fun h => hle h.1
      rw [if_neg hle, if_neg hnot]
      rfl

/-- No array fits where nothing may nest. -/
theorem readBack_array_zero (items : List Json) : readBack 0 (.array items) = none :=
  if_neg (Nat.not_succ_le_zero _)

/-- The items of an array are one level deeper. -/
theorem readBack_array_succ (depth : Nat) (items : List Json) :
    readBack (depth + 1) (.array items) = (items.mapM (readBack depth)).map .array := by
  rw [mapM_readBack]
  unfold readBack
  by_cases h : depthOfItems items ≤ depth
  · rw [if_pos h]
    exact if_pos (Nat.succ_le_succ h)
  · rw [if_neg h]
    exact if_neg fun hdepth => h (Nat.le_of_succ_le_succ hdepth)

/-- No object fits where nothing may nest. -/
theorem readBack_object_zero (members : List (String × Json)) :
    readBack 0 (.object members) = none :=
  if_neg (Nat.not_succ_le_zero _)

/-- The members of an object are one level deeper. -/
theorem readBack_object_succ (depth : Nat) (members : List (String × Json)) :
    readBack (depth + 1) (.object members) =
      (readMembers depth members []).map .object := by
  rw [readMembers_eq]
  unfold readBack
  by_cases h : depthOfMembers members ≤ depth
  · rw [if_pos h]
    exact if_pos (Nat.succ_le_succ h)
  · rw [if_neg h]
    exact if_neg fun hdepth => h (Nat.le_of_succ_le_succ hdepth)

end MessageBroker.Json
