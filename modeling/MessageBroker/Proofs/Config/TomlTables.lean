import MessageBroker.Proofs.Config.Document

/-!
# Tables of TOML documents

The lines of a document change its tables one after the other. A line that is not refused puts its
value, or a new table, at its path and leaves everything else as it was (`Value.Grows`): that is so
for a value under a key (`Nodes.assign_grows`) and for a header (`Nodes.open_grows`), and it goes
through to the whole document from the table that a header names (`Nodes.within_grows`). A value
that holds a document then holds what the line says besides (`Value.Holds.grow`).

This is about documents without tables in double brackets (`Nodes.Sound`).
-/

namespace MessageBroker.Config

/-! ## Growth -/

namespace Value

variable {v v' : Value} {path : List String} {part : List String → Option Value}

/-- A value has become another one by a change at a path, where it now has a part: values that are
no tables stay, and all that is new is on the way to the part or in it. -/
structure Grows (path : List String) (part : List String → Option Value) (v v' : Value) :
    Prop where
  kept : ∀ p w, v.at? p = some w → ¬ w.IsTable → v'.at? p = some w
  there : ∀ q w, part q = some w → v'.at? (path ++ q) = some w
  leaf : ∀ p w, v'.at? p = some w → w.IsTable ∨ v.at? p = some w ∨
    ∃ q, p = path ++ q ∧ part q = some w
  fresh : ∀ p, v'.at? p ≠ none → v.at? p ≠ none ∨ p <+: path ∨ ∃ q, p = path ++ q ∧ part q ≠ none

/-- What a grown value holds: what it held before, and what its new part says. -/
theorem Holds.grow {format : Format} {origin : Option String} {doc new : Document}
    (h : v.Holds format origin doc) (hgrows : Grows path part v v')
    (hgiven : ∀ e ∈ new.given, ∃ w, e.2.value? format origin = some w ∧ part e.1 = some w)
    (hwithin : ∀ q, q = [] ∨ part q ≠ none → ∃ p ∈ new.paths, q <+: p)
    (hleaf : ∀ q w, part q = some w → w.IsTable ∨ q ∈ new.given.map Prod.fst)
    (hincreasing : ∀ p w, v'.at? p = some w → Entries.Increasing w.entries) :
    v'.Holds format origin (doc.append (new.under path)) where
  given e he := by
    rcases List.mem_append.mp he with he | he
    · obtain ⟨w, hw, hat⟩ := h.given e he
      exact ⟨w, hw, hgrows.kept _ w hat (not_isTable_of_literal hw)⟩
    · obtain ⟨given, hmem, rfl⟩ := List.mem_map.mp he
      obtain ⟨w, hw, hpart⟩ := hgiven given hmem
      exact ⟨w, hw, hgrows.there _ w hpart⟩
  within p hp := by
    have hnew : ∀ q, q = [] ∨ part q ≠ none →
        ∃ p ∈ (doc.append (new.under path)).paths, path ++ q <+: p := by
      intro q hq
      obtain ⟨p, hp, hbegins⟩ := hwithin q hq
      exact ⟨path ++ p, Document.mem_paths_append.mpr (.inr (Document.mem_paths_under.mpr
        ⟨p, hp, rfl⟩)), (List.prefix_append_right_inj path).mpr hbegins⟩
    -- A path was there before, or leads to the new part, or goes on inside it.
    rcases hgrows.fresh p hp with hold | hway | ⟨q, rfl, hq⟩
    · obtain ⟨p', hp', hbegins⟩ := h.within p hold
      exact ⟨p', Document.mem_paths_append.mpr (.inl hp'), hbegins⟩
    · obtain ⟨p', hp', hbegins⟩ := hnew [] (.inl rfl)
      exact ⟨p', hp', hway.trans ((List.prefix_append path []).trans hbegins)⟩
    · exact hnew q (.inr hq)
  leaf p w hw := by
    show w.IsTable ∨ p ∈ ((doc.given ++ (new.under path).given).map Prod.fst)
    rw [List.map_append, List.mem_append]
    rcases hgrows.leaf p w hw with htable | hold | ⟨q, rfl, hq⟩
    · exact .inl htable
    · exact (h.leaf p w hold).imp_right .inl
    · refine (hleaf q w hq).imp_right fun hmem => .inr ?_
      obtain ⟨e, he, rfl⟩ := List.mem_map.mp hmem
      exact List.mem_map.mpr ⟨_, List.mem_map_of_mem he, rfl⟩
  increasing := hincreasing

end Value

namespace Toml

variable {origin : Option String}

/-! ## Nodes as values -/

/-- The table that nodes make up. -/
def Nodes.toValue (origin : Option String) (nodes : Nodes) : Value :=
  .table origin (nodesToEntries origin nodes)

/-- The entries of nodes are their values under the same names. -/
theorem nodesToEntries_eq (origin : Option String) (nodes : Nodes) :
    nodesToEntries origin nodes = nodes.map fun e => (e.1, e.2.toValue origin) := by
  induction nodes with
  | nil => rw [nodesToEntries, List.map_nil]
  | cons e rest ih =>
    obtain ⟨name, node⟩ := e
    rw [nodesToEntries, ih, List.map_cons]

/-- The table of nodes has the values of the nodes. -/
theorem at?_toValue (name : String) (rest : List String) (nodes : Nodes) :
    (nodes.toValue origin).at? (name :: rest) =
      (Entries.find? name nodes).bind fun node => (node.toValue origin).at? rest := by
  show (Entries.find? name (nodesToEntries origin nodes)).bind _ = _
  rw [nodesToEntries_eq, Entries.find?_map, Option.bind_map]
  rfl

/-- A table while it is built is the table of its nodes. -/
theorem toValue_table (making : Making) (entries : List (String × Node)) :
    (Node.table making entries).toValue origin = Nodes.toValue origin entries := by
  rw [Node.toValue]
  rfl

/-- After an insertion, the new node is found under its name. -/
theorem at?_insert_self (name : String) (node : Node) (rest : List String) (nodes : Nodes) :
    (Nodes.toValue origin (Entries.insert name node nodes)).at? (name :: rest) =
      (node.toValue origin).at? rest := by
  rw [at?_toValue, Entries.find?_insert_self]
  rfl

/-- After an insertion, the other nodes are as they were. -/
theorem at?_insert_ne {name other : String} (h : other ≠ name) (node : Node) (rest : List String)
    (nodes : Nodes) :
    (Nodes.toValue origin (Entries.insert name node nodes)).at? (other :: rest) =
      (nodes.toValue origin).at? (other :: rest) := by
  rw [at?_toValue, Entries.find?_insert_ne h, ← at?_toValue]

/-! ## Soundness -/

/-- The part of a document has no tables in double brackets, and names increase in all its
tables. -/
inductive Node.Sound (origin : Option String) : Node → Prop
  | value {v : Value} (hv : ∀ path w, v.at? path = some w → Entries.Increasing w.entries) :
      Node.Sound origin (.value v)
  | table {making : Making} {entries : List (String × Node)} (hinc : Entries.Increasing entries)
      (h : ∀ e ∈ entries, e.2.Sound origin) : Node.Sound origin (.table making entries)

namespace Nodes

/-- Nodes of a document that has no tables in double brackets. -/
def Sound (origin : Option String) (nodes : Nodes) : Prop :=
  Entries.Increasing nodes ∧ ∀ e ∈ nodes, e.2.Sound origin

variable {nodes nodes' : Nodes} {name : String} {node : Node}

/-- A document begins without nodes. -/
theorem sound_nil : Nodes.Sound origin [] := ⟨List.Pairwise.nil, nofun⟩

/-- A sound node may be put under a name. -/
theorem Sound.insert (h : nodes.Sound origin) (hnode : node.Sound origin) (name : String) :
    Nodes.Sound origin (Entries.insert name node nodes) := by
  refine ⟨h.1.insert name node, fun e he => ?_⟩
  rcases Entries.mem_insert he with rfl | he
  · exact hnode
  · exact h.2 e he

/-- What is found in sound nodes is sound. -/
theorem Sound.of_find? (h : nodes.Sound origin) (hfound : Entries.find? name nodes = some node) :
    node.Sound origin := h.2 _ (Entries.mem_of_find? hfound)

/-- In sound nodes, the nodes of a table are sound. -/
theorem Sound.of_table {making : Making} {entries : Nodes} (h : nodes.Sound origin)
    (hfound : Entries.find? name nodes = some (.table making entries)) :
    Nodes.Sound origin entries := by
  cases h.of_find? hfound with
  | table hinc hinner => exact ⟨hinc, hinner⟩

/-- The names increase in all tables of sound nodes. -/
theorem Sound.increasing (h : nodes.Sound origin) {path : List String} {w : Value}
    (hw : (nodes.toValue origin).at? path = some w) : Entries.Increasing w.entries := by
  induction path generalizing nodes with
  | nil =>
    obtain rfl : nodes.toValue origin = w := Option.some.inj hw
    show Entries.Increasing (nodesToEntries origin nodes)
    rw [nodesToEntries_eq]
    exact h.1.map _
  | cons name path ih =>
    rw [at?_toValue] at hw
    obtain ⟨node, hfound, hw⟩ := Option.bind_eq_some_iff.mp hw
    have hnode := h.of_find? hfound
    cases hnode with
    | value hv =>
      rw [Node.toValue] at hw
      exact hv path w hw
    | table hinc hinner =>
      rw [toValue_table] at hw
      exact ih ⟨hinc, hinner⟩ hw

/-! ## Changes -/

/-- A value under a key leaves nodes sound. -/
theorem sound_assign {v : Value} {names : List String} (h : nodes.Sound origin)
    (hv : ∀ path w, v.at? path = some w → Entries.Increasing w.entries)
    (hassign : nodes.assign v names = some nodes') : nodes'.Sound origin := by
  fun_induction assign v names nodes generalizing nodes' with
  | case1 => cases hassign
  | case2 => cases hassign
  | case3 name nodes =>
    cases hassign
    exact h.insert (.value hv) name
  | case4 name next rest nodes hnone ih =>
    obtain ⟨inner, hinner, rfl⟩ := Option.map_eq_some_iff.mp hassign
    obtain ⟨hinc, hall⟩ := ih sound_nil hinner
    exact h.insert (.table hinc hall) name
  | case5 => cases hassign
  | case6 name next rest nodes making entries hfound hfree ih =>
    obtain ⟨inner, hinner, rfl⟩ := Option.map_eq_some_iff.mp hassign
    obtain ⟨hinc, hall⟩ := ih (h.of_table hfound) hinner
    exact h.insert (.table hinc hall) name
  | case7 => cases hassign

/-- A header leaves nodes sound. -/
theorem sound_open (h : nodes.Sound origin) (hopen : nodes.open? name = some nodes') :
    nodes'.Sound origin := by
  unfold open? at hopen
  split at hopen
  · cases hopen
    exact h.insert (.table List.Pairwise.nil nofun) name
  · rename_i entries hfound
    cases hopen
    obtain ⟨hinc, hall⟩ := h.of_table hfound
    exact h.insert (.table hinc hall) name
  · cases hopen

/-- Where the first name of a path leads in sound nodes: to a table, which may be new, and which is
changed. -/
theorem within_cons {change : Nodes → Option Nodes} {rest : List String}
    (h : nodes.Sound origin) (hwithin : within change (name :: rest) nodes = some nodes') :
    ∃ making entries inner, within change rest entries = some inner ∧
      Nodes.Sound origin entries ∧ nodes' = Entries.insert name (.table making inner) nodes ∧
      (Entries.find? name nodes = some (.table making entries) ∨
        Entries.find? name nodes = none ∧ entries = []) := by
  unfold within at hwithin
  cases hfound : Entries.find? name nodes with
  | none =>
    rw [hfound, Option.getD_none] at hwithin
    obtain ⟨inner, hinner, rfl⟩ := Option.map_eq_some_iff.mp hwithin
    exact ⟨.passed, [], inner, hinner, sound_nil, rfl, .inr ⟨rfl, rfl⟩⟩
  | some node =>
    rw [hfound, Option.getD_some] at hwithin
    -- No header leads into a value, and there are no tables in double brackets.
    cases h.of_find? hfound with
    | value => cases hwithin
    | @table making entries hinc hall =>
      obtain ⟨inner, hinner, rfl⟩ := Option.map_eq_some_iff.mp hwithin
      exact ⟨making, entries, inner, hinner, ⟨hinc, hall⟩, rfl, .inl rfl⟩

/-- A change of a table leaves nodes sound if it leaves the table so. -/
theorem sound_within {change : Nodes → Option Nodes} {way : List String} (h : nodes.Sound origin)
    (hchange : ∀ inner inner' : Nodes, inner.Sound origin → change inner = some inner' →
      inner'.Sound origin) (hwithin : within change way nodes = some nodes') :
    nodes'.Sound origin := by
  induction way generalizing nodes nodes' with
  | nil => exact hchange nodes nodes' h hwithin
  | cons name way ih =>
    obtain ⟨making, entries, inner, hinner, hentries, rfl, -⟩ := within_cons h hwithin
    obtain ⟨hinc, hall⟩ := ih hentries hinner
    exact h.insert (.table hinc hall) name

/-- Nodes grow by an insertion as what is under its name grows. -/
theorem grows_insert {tail : List String} {part : List String → Option Value}
    (hkept : ∀ p w, (nodes.toValue origin).at? (name :: p) = some w → ¬ w.IsTable →
      (node.toValue origin).at? p = some w)
    (hthere : ∀ q w, part q = some w → (node.toValue origin).at? (tail ++ q) = some w)
    (hleaf : ∀ p w, (node.toValue origin).at? p = some w → w.IsTable ∨
      (nodes.toValue origin).at? (name :: p) = some w ∨ ∃ q, p = tail ++ q ∧ part q = some w)
    (hfresh : ∀ p, (node.toValue origin).at? p ≠ none →
      (nodes.toValue origin).at? (name :: p) ≠ none ∨ p <+: tail ∨
        ∃ q, p = tail ++ q ∧ part q ≠ none) :
    Value.Grows (name :: tail) part (nodes.toValue origin)
      (Nodes.toValue origin (Entries.insert name node nodes)) where
  kept p w hw hleafless := by
    cases p with
    | nil =>
      obtain rfl : nodes.toValue origin = w := Option.some.inj hw
      exact absurd ⟨_, _, rfl⟩ hleafless
    | cons other p =>
      by_cases hname : other = name
      · subst hname
        rw [at?_insert_self]
        exact hkept p w hw hleafless
      · rwa [at?_insert_ne hname]
  there q w hw := by
    rw [List.cons_append, at?_insert_self]
    exact hthere q w hw
  leaf p w hw := by
    cases p with
    | nil =>
      obtain rfl := Option.some.inj hw
      exact .inl ⟨_, _, rfl⟩
    | cons other p =>
      by_cases hname : other = name
      · subst hname
        rw [at?_insert_self] at hw
        refine (hleaf p w hw).imp_right (Or.imp_right ?_)
        rintro ⟨q, rfl, hq⟩
        exact ⟨q, rfl, hq⟩
      · rw [at?_insert_ne hname] at hw
        exact .inr (.inl hw)
  fresh p hp := by
    cases p with
    | nil => exact .inl (Option.some_ne_none _)
    | cons other p =>
      by_cases hname : other = name
      · subst hname
        rw [at?_insert_self] at hp
        refine (hfresh p hp).imp_right (Or.imp (fun h => ?_) ?_)
        · exact List.cons_prefix_cons.mpr ⟨rfl, h⟩
        · rintro ⟨q, rfl, hq⟩
          exact ⟨q, rfl, hq⟩
      · rw [at?_insert_ne hname] at hp
        exact .inl hp

/-- Nodes grow by a value under a new name. -/
theorem grows_value (hnone : Entries.find? name nodes = none) (v : Value) :
    Value.Grows [name] (fun q => v.at? q) (nodes.toValue origin)
      (Nodes.toValue origin (Entries.insert name (.value v) nodes)) := by
  have hold : ∀ p, (nodes.toValue origin).at? (name :: p) = none := fun p => by
    rw [at?_toValue, hnone]
    rfl
  have hnew : Node.toValue origin (.value v) = v := by rw [Node.toValue]
  refine grows_insert (fun p w hw => ?_) (fun q w hw => ?_) (fun p w hw => ?_) fun p hp => ?_
  · rw [hold] at hw
    cases hw
  · rwa [hnew]
  · rw [hnew] at hw
    exact .inr (.inr ⟨p, rfl, hw⟩)
  · rw [hnew] at hp
    exact .inr (.inr ⟨p, rfl, hp⟩)

/-- Nodes grow as a table among them does, or a new one. -/
theorem grows_table {tail : List String} {part : List String → Option Value} {making : Making}
    {entries inner : Nodes} (making' : Making)
    (hfound : Entries.find? name nodes = some (.table making entries) ∨
      Entries.find? name nodes = none ∧ entries = [])
    (hinner : Value.Grows tail part (entries.toValue origin) (inner.toValue origin)) :
    Value.Grows (name :: tail) part (nodes.toValue origin)
      (Nodes.toValue origin (Entries.insert name (.table making' inner) nodes)) := by
  -- What was under the name before: the table, which without one counts as empty.
  have hold : ∀ p w, (nodes.toValue origin).at? (name :: p) = some w →
      (entries.toValue origin).at? p = some w := by
    intro p w hw
    rw [at?_toValue] at hw
    rcases hfound with hfound | ⟨hfound, rfl⟩
    · rw [hfound] at hw
      rwa [← toValue_table making]
    · rw [hfound] at hw
      cases hw
  have hentries : ∀ p w, (entries.toValue origin).at? p = some w →
      w.IsTable ∧ p = [] ∨ (nodes.toValue origin).at? (name :: p) = some w := by
    intro p w hw
    rw [at?_toValue]
    rcases hfound with hfound | ⟨hfound, rfl⟩
    · rw [hfound]
      exact .inr hw
    · cases p with
      | nil =>
        obtain rfl := Option.some.inj hw
        exact .inl ⟨⟨_, _, rfl⟩, rfl⟩
      | cons other p =>
        rw [at?_toValue] at hw
        cases hw
  refine grows_insert (fun p w hw hleafless => ?_) (fun q w hw => ?_) (fun p w hw => ?_)
    fun p hp => ?_
  · rw [toValue_table]
    exact hinner.kept p w (hold p w hw) hleafless
  · rw [toValue_table]
    exact hinner.there q w hw
  · rw [toValue_table] at hw
    rcases hinner.leaf p w hw with htable | hbefore | hpart
    · exact .inl htable
    · exact (hentries p w hbefore).imp And.left .inl
    · exact .inr (.inr hpart)
  · rw [toValue_table] at hp
    rcases hinner.fresh p hp with hbefore | hway
    · obtain ⟨w, hw⟩ := Option.ne_none_iff_exists'.mp hbefore
      rcases hentries p w hw with ⟨-, rfl⟩ | hat
      · exact .inr (.inl (List.nil_prefix))
      · exact .inl (by rw [hat]; exact Option.some_ne_none w)
    · exact .inr hway

/-- A value under a key makes nodes grow by that value. -/
theorem assign_grows {v : Value} {names : List String}
    (hassign : nodes.assign v names = some nodes') :
    Value.Grows names (fun q => v.at? q) (nodes.toValue origin) (nodes'.toValue origin) := by
  fun_induction assign v names nodes generalizing nodes' with
  | case1 => cases hassign
  | case2 => cases hassign
  | case3 name nodes hfree =>
    cases hassign
    exact grows_value (Option.not_isSome_iff_eq_none.mp hfree) v
  | case4 name next rest nodes hnone ih =>
    -- A table on the way that is not there yet counts as an empty one.
    obtain ⟨inner, hinner, rfl⟩ := Option.map_eq_some_iff.mp hassign
    have hnew : Entries.find? name nodes = some (.table .dotted []) ∨
        Entries.find? name nodes = none ∧ ([] : Nodes) = [] := .inr ⟨hnone, rfl⟩
    exact grows_table .dotted hnew (ih hinner)
  | case5 => cases hassign
  | case6 name next rest nodes making entries hfound hfree ih =>
    obtain ⟨inner, hinner, rfl⟩ := Option.map_eq_some_iff.mp hassign
    exact grows_table making (.inl hfound) (ih hinner)
  | case7 => cases hassign

/-- A header makes nodes grow by an empty table, or not at all. -/
theorem open_grows (hopen : nodes.open? name = some nodes') :
    Value.Grows [name] (fun _ => none) (nodes.toValue origin) (nodes'.toValue origin) := by
  have hsame : ∀ v : Value, Value.Grows [] (fun _ => none) v v := fun v =>
    ⟨fun _ _ hw _ => hw, nofun, fun _ _ hw => .inr (.inl hw), fun _ hp => .inl hp⟩
  unfold open? at hopen
  split at hopen
  · rename_i hnone
    cases hopen
    have hnew : Entries.find? name nodes = some (.table .headed []) ∨
        Entries.find? name nodes = none ∧ ([] : Nodes) = [] := .inr ⟨hnone, rfl⟩
    exact grows_table .headed hnew (hsame _)
  · rename_i entries hfound
    cases hopen
    exact grows_table .headed (.inl hfound) (hsame _)
  · cases hopen

/-- Nodes grow as the table does that a header names. -/
theorem within_grows {change : Nodes → Option Nodes} {way path : List String}
    {part : List String → Option Value} (h : nodes.Sound origin)
    (hchange : ∀ inner inner' : Nodes, change inner = some inner' →
      Value.Grows path part (inner.toValue origin) (inner'.toValue origin))
    (hwithin : within change way nodes = some nodes') :
    Value.Grows (way ++ path) part (nodes.toValue origin) (nodes'.toValue origin) := by
  induction way generalizing nodes nodes' with
  | nil => exact hchange nodes nodes' hwithin
  | cons name way ih =>
    obtain ⟨making, entries, inner, hinner, hentries, rfl, hfound⟩ := within_cons h hwithin
    exact grows_table making hfound (ih hentries hinner)

end Nodes

end Toml

end MessageBroker.Config
