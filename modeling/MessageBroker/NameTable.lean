/-!
# Tables of named entries

A `NameTable` keeps one entry under each name and lists its entries in increasing order of name,
so two tables with the same entries are equal. Names are compared by code point, which is also the
order of their UTF-8 bytes. Message metadata, the broker's registry and its statistics are such
tables; the list functions below serve JSON objects too, which nest.
-/

namespace MessageBroker

/-! ## Lists of entries -/

namespace Entries

variable {α : Type}

/-- The entry under a name. -/
def find? (name : String) : List (String × α) → Option α
  | [] => none
  | (key, value) :: rest => if key = name then some value else find? name rest

/-- Puts an entry in its place, replacing an entry of the same name. -/
def insert (name : String) (value : α) : List (String × α) → List (String × α)
  | [] => [(name, value)]
  | (key, old) :: rest =>
    if name < key then (name, value) :: (key, old) :: rest
    else if key < name then (key, old) :: insert name value rest
    else (name, value) :: rest

/-- Later entries replace earlier ones of the same name. -/
def ofList (entries : List (String × α)) : List (String × α) :=
  entries.foldl (fun table entry => insert entry.1 entry.2 table) []

/-- The names strictly increase. -/
def Increasing (entries : List (String × α)) : Prop :=
  entries.Pairwise (fun a b => a.1 < b.1)

/-- Names neither above nor below each other are equal. -/
theorem eq_of_not_lt {a b : String} (h : ¬ a < b) (h' : ¬ b < a) : a = b :=
  String.le_antisymm (String.not_lt.mp h') (String.not_lt.mp h)

/-- An entry of the changed list is the new one or an old one. -/
theorem mem_insert {name : String} {value : α} {entries : List (String × α)} {e : String × α}
    (h : e ∈ insert name value entries) : e = (name, value) ∨ e ∈ entries := by
  induction entries with
  | nil => simpa [insert] using h
  | cons head rest ih =>
    obtain ⟨key, old⟩ := head
    simp only [insert] at h
    split at h
    · simpa using h
    · split at h
      · rcases List.mem_cons.mp h with h | h
        · exact .inr (by simp [h])
        · exact (ih h).imp_right (List.mem_cons_of_mem _)
      · rcases List.mem_cons.mp h with h | h
        · exact .inl h
        · exact .inr (List.mem_cons_of_mem _ h)

/-- Inserting keeps the order of names. -/
theorem Increasing.insert {entries : List (String × α)} (h : Increasing entries)
    (name : String) (value : α) : Increasing (insert name value entries) := by
  unfold Increasing at h ⊢
  induction entries with
  | nil => simp [Entries.insert]
  | cons head rest ih =>
    obtain ⟨key, old⟩ := head
    obtain ⟨below, inner⟩ := List.pairwise_cons.mp h
    simp only [Entries.insert]
    split
    · rename_i lt
      refine List.pairwise_cons.mpr ⟨fun e he => ?_, h⟩
      rcases List.mem_cons.mp he with rfl | he
      · exact lt
      · exact String.lt_trans lt (below e he)
    · split
      · rename_i gt
        refine List.pairwise_cons.mpr ⟨fun e he => ?_, ih inner⟩
        rcases mem_insert he with rfl | he
        · exact gt
        · exact below e he
      · rename_i nlt ngt
        have same : key = name := eq_of_not_lt ngt nlt
        exact List.pairwise_cons.mpr ⟨fun e he => same ▸ below e he, inner⟩

/-- The inserted entry is found under its name. -/
theorem find?_insert_self (name : String) (value : α) (entries : List (String × α)) :
    find? name (insert name value entries) = some value := by
  induction entries with
  | nil => simp [insert, find?]
  | cons head rest ih =>
    obtain ⟨key, old⟩ := head
    simp only [insert]
    split
    · simp [find?]
    · split
      · rename_i gt
        have : key ≠ name := fun e => String.lt_irrefl _ (e ▸ gt)
        simpa [find?, this] using ih
      · simp [find?]

/-- Inserting under one name leaves the other names alone. -/
theorem find?_insert_ne {name other : String} (ne : other ≠ name) (value : α)
    (entries : List (String × α)) :
    find? other (insert name value entries) = find? other entries := by
  induction entries with
  | nil => simp [insert, find?, ne.symm]
  | cons head rest ih =>
    obtain ⟨key, old⟩ := head
    simp only [insert]
    split
    · simp [find?, ne.symm]
    · split
      · simp only [find?, ih]
      · rename_i nlt ngt
        have same : key = name := eq_of_not_lt ngt nlt
        simp [find?, ne.symm, same]

/-- What is found is an entry. -/
theorem mem_of_find? {entries : List (String × α)} {name : String} {value : α}
    (h : find? name entries = some value) : (name, value) ∈ entries := by
  induction entries with
  | nil => cases h
  | cons head rest ih =>
    obtain ⟨key, old⟩ := head
    unfold find? at h
    split at h
    · rename_i same
      rw [← same, Option.some.inj h]
      exact List.mem_cons_self
    · exact List.mem_cons_of_mem _ (ih h)

/-- Where no name occurs twice, an entry is found under its name. -/
theorem find?_eq_some_iff_of_nodup {entries : List (String × α)}
    (h : (entries.map Prod.fst).Nodup) {name : String} {value : α} :
    find? name entries = some value ↔ (name, value) ∈ entries := by
  induction entries with
  | nil => simp [find?]
  | cons head rest ih =>
    obtain ⟨key, old⟩ := head
    obtain ⟨hnew, hrest⟩ := List.nodup_cons.mp h
    unfold find?
    split
    · rename_i same
      subst same
      have absent : (key, value) ∉ rest := fun mem =>
        hnew (List.mem_map.mpr ⟨(key, value), mem, rfl⟩)
      simp [absent, eq_comm]
    · rename_i other
      rw [ih hrest, List.mem_cons, Prod.mk.injEq]
      simp [Ne.symm other]

/-- Values that are changed are found changed. -/
theorem find?_map {β : Type} (f : α → β) (name : String) (entries : List (String × α)) :
    find? name (entries.map fun e => (e.1, f e.2)) = (find? name entries).map f := by
  induction entries with
  | nil => rfl
  | cons head rest ih =>
    obtain ⟨key, value⟩ := head
    rw [List.map_cons, find?, find?, ih]
    split
    · rfl
    · rfl

/-- Values that are changed leave the names as they are. -/
theorem Increasing.map {β : Type} {entries : List (String × α)} (h : Increasing entries)
    (f : α → β) : Increasing (entries.map fun e => (e.1, f e.2)) :=
  List.pairwise_map.mpr h

/-- Names that increase are different. -/
theorem Increasing.nodup {entries : List (String × α)} (h : Increasing entries) :
    (entries.map Prod.fst).Nodup := by
  refine List.pairwise_map.mpr (h.imp fun {a b} hlt he => ?_)
  exact String.lt_irrefl _ (he ▸ hlt)

/-- Where the names increase, an entry is found under its name. -/
theorem find?_eq_some_iff {entries : List (String × α)} (h : Increasing entries) {name : String}
    {value : α} : find? name entries = some value ↔ (name, value) ∈ entries :=
  find?_eq_some_iff_of_nodup h.nodup

/-- An entry whose name is above all others comes last. -/
theorem insert_of_above {name : String} {entries : List (String × α)}
    (h : ∀ e ∈ entries, e.1 < name) (value : α) :
    insert name value entries = entries ++ [(name, value)] := by
  induction entries with
  | nil => rfl
  | cons head rest ih =>
    have lt : head.1 < name := h head List.mem_cons_self
    unfold insert
    rw [if_neg (String.lt_asymm lt), if_pos lt, ih fun e he => h e (List.mem_cons_of_mem _ he)]
    rfl

/-! ### Lists in any order -/

/-- Entries that are put into a list of entries one after the other. -/
theorem find?_foldl_insert {entries : List (String × α)} (h : (entries.map Prod.fst).Nodup)
    (name : String) (table : List (String × α)) :
    find? name (entries.foldl (fun table entry => insert entry.1 entry.2 table) table) =
      (find? name entries).or (find? name table) := by
  induction entries generalizing table with
  | nil => rfl
  | cons head rest ih =>
    obtain ⟨key, value⟩ := head
    obtain ⟨hnew, hrest⟩ := List.nodup_cons.mp h
    rw [List.foldl_cons, ih hrest]
    by_cases same : key = name
    · subst same
      have absent : find? key rest = none := by
        cases hfound : find? key rest with
        | none => rfl
        | some other =>
          have mem := (find?_eq_some_iff_of_nodup hrest).mp hfound
          exact absurd (List.mem_map.mpr ⟨(key, other), mem, rfl⟩) hnew
      rw [absent, find?_insert_self, find?, if_pos rfl]
      rfl
    · rw [find?_insert_ne (Ne.symm same), find?, if_neg same]

/-- Where no name occurs twice, the table of entries has them under their names. -/
theorem find?_ofList {entries : List (String × α)} (h : (entries.map Prod.fst).Nodup)
    (name : String) : find? name (ofList entries) = find? name entries := by
  unfold ofList
  rw [find?_foldl_insert h]
  exact Option.or_none

/-- The names of a list of entries increase. -/
theorem increasing_ofList (entries : List (String × α)) : Increasing (ofList entries) := by
  have hfold : ∀ table : List (String × α), Increasing table →
      Increasing (entries.foldl (fun table entry => insert entry.1 entry.2 table) table) := by
    induction entries with
    | nil => exact fun _ h => h
    | cons head rest ih => exact fun table h => ih _ (h.insert head.1 head.2)
  exact hfold [] List.Pairwise.nil

/-- The entries of the table are entries of the list. -/
theorem mem_of_mem_ofList {entries : List (String × α)} {e : String × α} (h : e ∈ ofList entries) :
    e ∈ entries := by
  have hfold : ∀ table : List (String × α),
      e ∈ entries.foldl (fun table entry => insert entry.1 entry.2 table) table →
        e ∈ entries ∨ e ∈ table := by
    clear h
    induction entries with
    | nil => exact fun _ h => .inr h
    | cons head rest ih =>
      intro table h
      rcases ih _ h with hrest | htable
      · exact .inl (List.mem_cons_of_mem _ hrest)
      · rcases mem_insert htable with rfl | hold
        · exact .inl List.mem_cons_self
        · exact .inr hold
  exact (hfold [] h).resolve_right List.not_mem_nil

/-- The table has an entry under each name of the list. -/
theorem find?_ofList_ne_none {entries : List (String × α)} {name : String}
    (h : name ∈ entries.map Prod.fst) : find? name (ofList entries) ≠ none := by
  have hfold : ∀ table : List (String × α),
      name ∈ entries.map Prod.fst ∨ find? name table ≠ none →
        find? name (entries.foldl (fun table entry => insert entry.1 entry.2 table) table) ≠
          none := by
    clear h
    induction entries with
    | nil => exact fun _ h => h.resolve_left List.not_mem_nil
    | cons head rest ih =>
      intro table h
      refine ih _ ?_
      by_cases same : name = head.1
      · rw [same, find?_insert_self]
        exact .inr (Option.some_ne_none _)
      · rw [find?_insert_ne same]
        exact h.imp_left fun hmem => (List.mem_cons.mp hmem).resolve_left same
  exact hfold [] (.inl h)

/-- Where no name occurs twice, the table has just the entries of the list. -/
theorem perm_ofList {entries : List (String × α)} (h : (entries.map Prod.fst).Nodup) :
    (ofList entries).Perm entries := by
  have hinc := increasing_ofList entries
  have hnodup : ∀ l : List (String × α), (l.map Prod.fst).Nodup → l.Nodup := fun l hl =>
    List.Pairwise.of_map Prod.fst (fun a b hne he => hne (congrArg Prod.fst he)) hl
  refine (List.perm_ext_iff_of_nodup (hnodup _ hinc.nodup) (hnodup _ h)).mpr fun e => ?_
  rw [← find?_eq_some_iff hinc, find?_ofList h, find?_eq_some_iff_of_nodup h]

/-- The order in which the entries of a table are listed does not matter. -/
theorem ofList_eq_of_perm {entries table : List (String × α)} (hp : entries.Perm table)
    (h : Increasing table) : ofList entries = table := by
  have hnames : (entries.map Prod.fst).Nodup := ((hp.map Prod.fst).nodup_iff).mpr h.nodup
  refine List.Perm.eq_of_pairwise (fun a b _ _ hab hba => ?_) (increasing_ofList entries) h
    ((perm_ofList hnames).trans hp)
  exact absurd hba (String.lt_asymm hab)

end Entries

/-! ## Tables -/

/-- Entries under names, listed in increasing order of name. -/
structure NameTable (α : Type) where
  entries : List (String × α)
  increasing : Entries.Increasing entries
deriving DecidableEq

namespace NameTable

variable {α : Type}

/-- The table without entries. -/
def empty : NameTable α := ⟨[], List.Pairwise.nil⟩

instance : Inhabited (NameTable α) := ⟨empty⟩

/-- The entry under a name. -/
def find? (table : NameTable α) (name : String) : Option α := Entries.find? name table.entries

/-- Sets the entry under a name, replacing an earlier one. -/
def insert (table : NameTable α) (name : String) (value : α) : NameTable α :=
  ⟨Entries.insert name value table.entries, table.increasing.insert name value⟩

/-- The number of entries. -/
def size (table : NameTable α) : Nat := table.entries.length

/-- The table of the listed entries; later ones replace earlier ones of the same name. -/
def ofList (entries : List (String × α)) : NameTable α :=
  entries.foldl (fun table entry => table.insert entry.1 entry.2) empty

/-- The entries of a table are those that are found under their names. -/
theorem mem_entries_iff {table : NameTable α} {name : String} {value : α} :
    (name, value) ∈ table.entries ↔ table.find? name = some value :=
  (Entries.find?_eq_some_iff table.increasing).symm

/-- The names of the entries are those under which something is found. -/
theorem mem_names_iff {table : NameTable α} {name : String} :
    name ∈ table.entries.map Prod.fst ↔ table.find? name ≠ none := by
  rw [Option.ne_none_iff_exists', List.mem_map]
  constructor
  · rintro ⟨⟨key, value⟩, mem, rfl⟩
    exact ⟨value, mem_entries_iff.mp mem⟩
  · rintro ⟨value, found⟩
    exact ⟨(name, value), mem_entries_iff.mpr found, rfl⟩

/-- The table of entries with increasing names lists them as they are. -/
theorem entries_ofList {entries : List (String × α)} (h : Entries.Increasing entries) :
    (ofList entries).entries = entries := by
  -- Each further entry comes behind those that are in the table.
  have behind : ∀ (rest : List (String × α)) (table : NameTable α),
      Entries.Increasing (table.entries ++ rest) →
      (rest.foldl (fun table entry => table.insert entry.1 entry.2) table).entries =
        table.entries ++ rest := by
    intro rest
    induction rest with
    | nil => exact fun table _ => (List.append_nil _).symm
    | cons e rest ih =>
      intro table hinc
      have above : ∀ x ∈ table.entries, x.1 < e.1 := fun x hx =>
        (List.pairwise_append.mp hinc).2.2 x hx e List.mem_cons_self
      have inserted : (table.insert e.1 e.2).entries = table.entries ++ [e] :=
        Entries.insert_of_above above e.2
      rw [List.foldl_cons, ih _ (by rw [inserted, List.append_assoc]; exact hinc), inserted,
        List.append_assoc]
      rfl
  exact behind entries empty h

/-- A table is that of its entries. -/
theorem ofList_entries (table : NameTable α) : ofList table.entries = table := by
  have hentries := entries_ofList table.increasing
  cases hlist : ofList table.entries with
  | mk entries increasing =>
    rw [hlist] at hentries
    subst hentries
    rfl

@[simp] theorem find?_empty (name : String) : (empty : NameTable α).find? name = none := rfl

@[simp] theorem find?_insert_self (table : NameTable α) (name : String) (value : α) :
    (table.insert name value).find? name = some value :=
  Entries.find?_insert_self name value table.entries

theorem find?_insert_ne (table : NameTable α) {name other : String} (ne : other ≠ name)
    (value : α) : (table.insert name value).find? other = table.find? other :=
  Entries.find?_insert_ne ne value table.entries

/-- Looking up after an insertion, in one equation. -/
theorem find?_insert (table : NameTable α) (name other : String) (value : α) :
    (table.insert name value).find? other =
      if other = name then some value else table.find? other := by
  split
  · rename_i same
    rw [same, find?_insert_self]
  · rename_i ne
    exact find?_insert_ne table ne value

end NameTable

end MessageBroker
