import MessageBroker.Config.Settings

/-!
# Layers of the configuration

A layer is put over a tree entry by entry, so that of all that is said about a field of a section
the last word counts, and what is said about other fields does not matter. This holds of a layer
that speaks of the field as a whole, neither of all of its section nor of a part of the field, as
the variables of settings do (`Section.Names.field?_over`). What lies below may be anything; it
shows through where the layer does not name the field.

A field is looked up with `Value.field?`, and `Section.values_eq` says that a section which is a
table, or missing, gives its fields as they are looked up.
-/

namespace MessageBroker

/-- What is found in the first of two lists, else in the second. -/
theorem Entries.find?_append {α : Type} (name : String) (first second : List (String × α)) :
    find? name (first ++ second) = (find? name first).or (find? name second) := by
  induction first with
  | nil => rfl
  | cons e rest ih =>
    rw [List.cons_append, find?, find?, ih]
    split <;> rfl

namespace Config

namespace Value

/-- The value is a table. -/
def IsTable (v : Value) : Prop := ∃ origin entries, v = .table origin entries

instance : (v : Value) → Decidable v.IsTable
  | .table origin entries => isTrue ⟨origin, entries, rfl⟩
  | .scalar _ _ | .list _ _ => isFalse fun ⟨_, _, h⟩ => by cases h

/-- A changed entry is found changed, as that of a table. -/
theorem lookup?_modifyEntry_self (name : String) (change : Value → Value) (v : Value) :
    (v.modifyEntry name change).lookup? name = some (change ((v.lookup? name).getD null)) := by
  unfold modifyEntry
  split
  · exact Entries.find?_insert_self _ _ _
  · rename_i hother
    have hnone : v.lookup? name = none := by
      cases v with
      | table origin entries => exact absurd rfl (hother origin entries)
      | scalar _ _ | list _ _ => rfl
    rw [hnone]
    exact if_pos rfl

/-- The entries under other names stay as they are. -/
theorem lookup?_modifyEntry_ne {name other : String} (h : other ≠ name) (change : Value → Value)
    (v : Value) : (v.modifyEntry name change).lookup? other = v.lookup? other := by
  unfold modifyEntry
  split
  · exact Entries.find?_insert_ne h _ _
  · rename_i hother
    cases v with
    | table origin entries => exact absurd rfl (hother origin entries)
    | scalar _ _ | list _ _ => exact if_neg (Ne.symm h)

/-- A value with a changed entry is a table. -/
theorem isTable_modifyEntry (name : String) (change : Value → Value) (v : Value) :
    (v.modifyEntry name change).IsTable := by
  unfold modifyEntry
  split <;> exact ⟨_, _, rfl⟩

/-- The value of a field of a section, if the section is a table that has it. -/
def field? (tree : Value) (s : Section) (field : String) : Option Value :=
  (tree.lookup? s.name).bind (·.lookup? field)

end Value

/-- The tree of a layer alone. -/
def Layer.tree (layer : Layer) : Value := layer.over (.table none [])

/-- A layer is put over a tree one entry after the other. -/
theorem Layer.over_cons (e : String × Value) (rest : Layer) (below : Value) :
    Layer.over (e :: rest) below = rest.over ((Path.ofKey e.1).modify e.2.merge below) := rfl

/-- A path begins with a name. -/
theorem Path.exists_ofKey (key : String) : ∃ name rest, Path.ofKey key = .entry name :: rest := by
  unfold Path.ofKey
  dsimp only
  split
  · exact ⟨_, _, rfl⟩
  · split <;> exact ⟨_, _, rfl⟩

namespace Section

variable {s : Section}

/-- The key of a field: its name behind that of the section. -/
def key (s : Section) (field : String) : String := s.name ++ "." ++ field

/-- The keys of the section's fields lead to these fields. -/
def Keyed (s : Section) : Prop :=
  ∀ field ∈ s.fields, Path.ofKey (s.key field) = [.entry s.name, .entry field]

instance (s : Section) : Decidable s.Keyed := inferInstanceAs (Decidable (∀ _ ∈ _, _))

/-- A path that leads neither to a field of the section, nor to something around it or in it. -/
def Spares (s : Section) (field : String) : Path → Prop
  | .entry name :: .entry other :: _ => name ≠ s.name ∨ other ≠ field
  | .entry name :: _ => name ≠ s.name
  | _ => False

instance (s : Section) (field : String) : (path : Path) → Decidable (s.Spares field path)
  | .entry _ :: .entry _ :: _ => inferInstanceAs (Decidable (_ ∨ _))
  | .entry _ :: .item _ :: _ | [.entry _] => inferInstanceAs (Decidable (_ ≠ _))
  | .item _ :: _ | [] => inferInstanceAs (Decidable False)

/-- What a layer says about a field of the section, it says about the field as a whole, and it gives
it values without parts. -/
def Names (s : Section) (field : String) (layer : Layer) : Prop :=
  ∀ e ∈ layer, (e.1 = s.key field ∧ ∃ origin value, e.2 = .scalar origin value) ∨
    s.Spares field (Path.ofKey e.1)

/-- The entries behind the first one. -/
theorem Names.tail {field : String} {e : String × Value} {rest : Layer}
    (h : s.Names field (e :: rest)) : s.Names field rest :=
  fun e' he' => h e' (List.mem_cons_of_mem _ he')

/-- A change somewhere else leaves the field as it is. -/
theorem Spares.field?_modify {field : String} {path : Path} (h : s.Spares field path)
    (change : Value → Value) (tree : Value) :
    (path.modify change tree).field? s field = tree.field? s field := by
  have helsewhere : ∀ (name : String) (rest : Path), name ≠ s.name →
      (Path.modify change (.entry name :: rest) tree).field? s field = tree.field? s field :=
    fun name rest hname =>
      congrArg (Option.bind · _) (Value.lookup?_modifyEntry_ne (Ne.symm hname) _ tree)
  match path, h with
  | .entry name :: .entry other :: rest, h =>
    by_cases hname : name = s.name
    · -- The change is in the section, in another field.
      have hother : other ≠ field := h.resolve_left (absurd hname)
      show ((tree.modifyEntry name _).lookup? s.name).bind _ = _
      rw [hname, Value.lookup?_modifyEntry_self, Option.bind_some]
      show (Value.modifyEntry other _ _).lookup? field = _
      rw [Value.lookup?_modifyEntry_ne hother.symm]
      unfold Value.field?
      cases tree.lookup? s.name with
      | none => rfl
      | some below => rfl
    · exact helsewhere name _ hname
  | .entry name :: .item index :: rest, h => exact helsewhere name _ h
  | [.entry name], h => exact helsewhere name _ h

/-- A value put at the place of a field is the value of that field. -/
theorem field?_modify {field : String} (hfield : field ∈ s.fields) (hkeyed : s.Keyed)
    (origin : Option String) (value : Scalar) (tree : Value) :
    ((Path.ofKey (s.key field)).modify (Value.scalar origin value).merge tree).field? s field =
      some (.scalar origin value) := by
  rw [hkeyed field hfield]
  unfold Value.field?
  show ((tree.modifyEntry s.name _).lookup? s.name).bind _ = _
  rw [Value.lookup?_modifyEntry_self]
  exact Value.lookup?_modifyEntry_self field _ _

/-- The last entry of a layer about a field decides about it, if there is one. -/
theorem Names.field?_over {field : String} {layer : Layer} (h : s.Names field layer)
    (hkeyed : s.Keyed) (hfield : field ∈ s.fields) (tree : Value) :
    (layer.over tree).field? s field =
      (Entries.find? (s.key field) layer.reverse).or (tree.field? s field) := by
  induction layer generalizing tree with
  | nil => rfl
  | cons e rest ih =>
    rw [Layer.over_cons, ih h.tail, List.reverse_cons, Entries.find?_append, Option.or_assoc]
    congr 1
    rcases h e List.mem_cons_self with ⟨hkey, origin, value, hvalue⟩ | hspares
    · obtain ⟨key, v⟩ := e
      obtain rfl : key = s.key field := hkey
      obtain rfl : v = .scalar origin value := hvalue
      rw [field?_modify hfield hkeyed, Entries.find?, if_pos rfl]
      rfl
    · have hkey : e.1 ≠ s.key field := fun he => by
        rw [he, hkeyed field hfield] at hspares
        exact hspares.elim (absurd rfl) (absurd rfl)
      rw [hspares.field?_modify, Entries.find?, if_neg hkey]
      rfl

/-- A section that is a table, or missing, is one as well after a change of one of its fields. -/
theorem lookup?_modify {path : Path} (change : Value → Value)
    (hpath : (∃ field rest, path = .entry s.name :: .entry field :: rest) ∨
      ∃ name rest, path = .entry name :: rest ∧ name ≠ s.name)
    {tree : Value} (htree : ∀ v, tree.lookup? s.name = some v → v.IsTable) {v : Value}
    (hv : (path.modify change tree).lookup? s.name = some v) : v.IsTable := by
  rcases hpath with ⟨field, rest, rfl⟩ | ⟨name, rest, rfl, hname⟩
  · change (tree.modifyEntry s.name _).lookup? s.name = some v at hv
    rw [Value.lookup?_modifyEntry_self] at hv
    cases hv
    exact Value.isTable_modifyEntry field _ _
  · change (tree.modifyEntry name _).lookup? s.name = some v at hv
    rw [Value.lookup?_modifyEntry_ne hname.symm] at hv
    exact htree v hv

/-- A path that spares a field lies in the section beside the field, or elsewhere. -/
theorem Spares.cases {field : String} {path : Path} (h : s.Spares field path) :
    (∃ field rest, path = .entry s.name :: .entry field :: rest) ∨
      ∃ name rest, path = .entry name :: rest ∧ name ≠ s.name := by
  match path, h with
  | .entry name :: .entry other :: rest, _ =>
    by_cases hname : name = s.name
    · exact .inl ⟨other, rest, by rw [hname]⟩
    · exact .inr ⟨name, _, rfl, hname⟩
  | .entry name :: .item index :: rest, h => exact .inr ⟨name, _, rfl, h⟩
  | [.entry name], h => exact .inr ⟨name, _, rfl, h⟩

/-- A section that is a table, or missing, is one as well under a layer that speaks of its fields. -/
theorem Names.lookup?_over {field : String} {layer : Layer} (h : s.Names field layer)
    (hkeyed : s.Keyed) (hfield : field ∈ s.fields) {tree : Value}
    (htree : ∀ v, tree.lookup? s.name = some v → v.IsTable) {v : Value}
    (hv : (layer.over tree).lookup? s.name = some v) : v.IsTable := by
  induction layer generalizing tree with
  | nil => exact htree v hv
  | cons e rest ih =>
    rw [Layer.over_cons] at hv
    refine ih h.tail (fun below hbelow => lookup?_modify _ ?_ htree hbelow) hv
    rcases h e List.mem_cons_self with ⟨hkey, -⟩ | hspares
    · exact .inl ⟨field, [], by rw [hkey, hkeyed field hfield]⟩
    · exact hspares.cases

/-- A layer that says nothing about the section leaves it as it is. -/
theorem lookup?_over_of_silent {layer : Layer}
    (h : ∀ e ∈ layer, (Path.ofKey e.1).head? ≠ some (.entry s.name)) (tree : Value) :
    (layer.over tree).lookup? s.name = tree.lookup? s.name := by
  induction layer generalizing tree with
  | nil => rfl
  | cons e rest ih =>
    rw [Layer.over_cons, ih fun e' he' => h e' (List.mem_cons_of_mem _ he')]
    obtain ⟨name, steps, hpath⟩ := Path.exists_ofKey e.1
    have hne : s.name ≠ name := by
      rintro rfl
      exact h e List.mem_cons_self (by rw [hpath]; rfl)
    rw [hpath]
    exact Value.lookup?_modifyEntry_ne hne _ _

/-- A value of a field is found only in a section that is a table. -/
theorem isTable_of_field? {tree : Value} {field : String} {found : Value}
    (h : tree.field? s field = some found) {v : Value} (hv : tree.lookup? s.name = some v) :
    v.IsTable := by
  unfold Value.field? at h
  rw [hv] at h
  cases v with
  | table origin entries => exact ⟨_, _, rfl⟩
  | scalar _ _ | list _ _ => cases h

/-- The fields of the section as they are looked up, each with its key; a missing one is null. -/
def shown (s : Section) (tree : Value) : List (String × Value) :=
  s.fields.map fun field => (s.key field, (tree.field? s field).getD .null)

/-- A section that is a table, or missing, gives its fields as they are looked up. -/
theorem values_eq {tree : Value} (h : ∀ v, tree.lookup? s.name = some v → v.IsTable) :
    s.values tree = .ok (s.shown tree) := by
  unfold values shown Value.field?
  cases hlookup : tree.lookup? s.name with
  | none => rfl
  | some v =>
    obtain ⟨origin, entries, rfl⟩ := h v hlookup
    rfl

/-- The value of a field that is known by its place. -/
theorem field_shown {α : Type} {field : String} {place : Nat}
    (hplace : s.fields[place]? = some field) (tree : Value)
    (read : String → Value → Except Fault α) :
    s.field (s.shown tree) place read =
      ((tree.field? s field).getD .null).optional read (s.key field) := by
  unfold Section.field shown
  rw [List.getElem?_map, hplace]
  rfl

end Section

end Config

end MessageBroker
