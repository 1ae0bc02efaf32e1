import MessageBroker.Proofs.Config.Fields
import MessageBroker.Proofs.Config.JsonInteger
import MessageBroker.Proofs.Config.TomlInteger

/-!
# What a file says

A `Document` is what the text of a file says, whatever the format and the layout: where it has
tables, and where it gives which value. A value stands there as it was written (`Literal`), so that
it is known what its author meant, also where no setting could be made of it.

`Value.Holds` says that a value has the values of a document at their paths, and nothing besides.
When the layer of a file is such a table, the tree of the layer has at a field of a section what the
document says about it (`Value.Holds.field?_tree`), as long as no other name at the top of the
document leads into the section.
-/

namespace MessageBroker.Config

/-! ## Written values -/

/-- A value without parts as it is written: a word, or a text in quotes. -/
inductive Token where
  | word (chars : List Char)
  | text (value : String)
deriving DecidableEq

/-- A value as it is written: a token, or a list of tokens in brackets. -/
inductive Literal where
  | token (token : Token)
  | list (items : List Token)
deriving DecidableEq

/-- What stands under a key: a literal, or a table in braces with literals under keys. -/
inductive Term where
  | literal (literal : Literal)
  | table (members : List (List String × Literal))

/-- The scalar that a word stands for in a format, if it stands for one. -/
def Format.wordScalar? : Format → (word : List Char) → Option Scalar
  | .toml, word => Toml.atom? word
  | .json, word =>
    if word = "null".toList then some .null
    else if word = "true".toList then some (.boolean true)
    else if word = "false".toList then some (.boolean false)
    else
      (Json.wholeNumber? (Json.splitMinus word).1 (Json.splitMinus word).2).map scalarOfNumber

/-- The scalar that a token stands for, if it stands for one. -/
def Token.scalar? (format : Format) : Token → Option Scalar
  | .word chars => format.wordScalar? chars
  | .text value => some (.text value)

/-- The value that a literal stands for, if all its tokens stand for one. -/
def Literal.value? (format : Format) (origin : Option String) : Literal → Option Value
  | .token t => (t.scalar? format).map (.scalar origin)
  | .list items =>
    (items.mapM (Token.scalar? format)).map fun values =>
      .list origin (values.map (.scalar origin))

/-- What a file says: where it has tables, and which literals it gives to which paths. -/
structure Document where
  tables : List (List String)
  given : List (List String × Literal)

namespace Document

/-- The document of an empty table. -/
def root : Document := ⟨[[]], []⟩

/-- All paths of a document. -/
def paths (doc : Document) : List (List String) := doc.tables ++ doc.given.map Prod.fst

/-- The document at a path of another one. -/
def under (path : List String) (doc : Document) : Document :=
  ⟨doc.tables.map (path ++ ·), doc.given.map fun e => (path ++ e.1, e.2)⟩

/-- Two documents together. -/
def append (doc doc' : Document) : Document :=
  ⟨doc.tables ++ doc'.tables, doc.given ++ doc'.given⟩

/-- An empty document adds nothing. -/
theorem append_nil (doc : Document) : doc.append ⟨[], []⟩ = doc := by
  unfold append
  rw [List.append_nil, List.append_nil]

/-- Documents one after the other may be taken together in any grouping. -/
theorem append_assoc (doc doc' doc'' : Document) :
    (doc.append doc').append doc'' = doc.append (doc'.append doc'') := by
  unfold append
  rw [List.append_assoc, List.append_assoc]

/-- The paths of two documents together are those of both. -/
theorem mem_paths_append {doc doc' : Document} {path : List String} :
    path ∈ (doc.append doc').paths ↔ path ∈ doc.paths ∨ path ∈ doc'.paths := by
  unfold paths append
  simp only [List.map_append, List.mem_append]
  tauto

/-- The paths of a document at a path lead on from there. -/
theorem mem_paths_under {doc : Document} {path p : List String} :
    p ∈ (doc.under path).paths ↔ ∃ q ∈ doc.paths, p = path ++ q := by
  unfold paths under
  simp only [List.map_map, List.mem_append, List.mem_map, Function.comp_apply]
  grind

end Document

/-- What a term says: a literal is given where it stands, a table in braces gives its members. -/
def Term.document : Term → Document
  | .literal l => ⟨[], [([], l)]⟩
  | .table members => ⟨[[]], members⟩

/-! ## Paths of names -/

namespace Value

/-- The value at a path of names. -/
def at? : List String → Value → Option Value
  | [], v => some v
  | name :: rest, v => (v.lookup? name).bind (at? rest)

/-- A path leads on from where its first part ends. -/
theorem at?_append (path rest : List String) (v : Value) :
    v.at? (path ++ rest) = (v.at? path).bind (at? rest) := by
  induction path generalizing v with
  | nil => rfl
  | cons name path ih =>
    rw [List.cons_append, at?, at?]
    cases v.lookup? name with
    | none => rfl
    | some inner => exact ih inner

/-- Only a table has something inside. -/
theorem isTable_of_at? {name : String} {rest : List String} {v : Value}
    (h : v.at? (name :: rest) ≠ none) : v.IsTable := by
  cases v with
  | table origin entries => exact ⟨_, _, rfl⟩
  | scalar _ _ | list _ _ => exact absurd rfl h

/-- An entry of a table that is put over another one is put over the entry below it. -/
theorem lookup?_mergeEntries {entries : List (String × Value)}
    (h : (entries.map Prod.fst).Nodup) (below : Value) (name : String) :
    (mergeEntries entries below).lookup? name =
      ((Entries.find? name entries).map fun v => v.merge ((below.lookup? name).getD null)).or
        (below.lookup? name) := by
  induction entries generalizing below with
  | nil =>
    rw [mergeEntries]
    rfl
  | cons e rest ih =>
    obtain ⟨key, value⟩ := e
    obtain ⟨hnew, hrest⟩ := List.nodup_cons.mp h
    rw [mergeEntries, ih hrest, Entries.find?]
    by_cases hkey : key = name
    · -- No later entry has this name, so this one is put over what was below.
      subst hkey
      have hnone : Entries.find? key rest = none := by
        cases hfound : Entries.find? key rest with
        | none => rfl
        | some other => exact absurd (List.mem_map_of_mem (Entries.mem_of_find? hfound)) hnew
      rw [hnone, if_pos rfl, lookup?_modifyEntry_self]
      rfl
    · rw [if_neg hkey, lookup?_modifyEntry_ne (Ne.symm hkey)]

/-- An entry of a table that is put over nothing. -/
theorem lookup?_merge_null {v : Value} (h : (v.entries.map Prod.fst).Nodup) (name : String) :
    (v.merge null).lookup? name = (v.lookup? name).map fun inner => inner.merge null := by
  cases v with
  | table origin entries =>
    rw [merge]
    show (mergeEntries entries (.table none [])).lookup? name =
      (Entries.find? name entries).map _
    rw [lookup?_mergeEntries (show (entries.map Prod.fst).Nodup from h)]
    exact Option.or_none
  | scalar _ _ | list _ _ =>
    rw [merge]
    rfl

/-- A table that is put over something is a table. -/
theorem IsTable.merge {v : Value} (h : v.IsTable) (below : Value) : (v.merge below).IsTable := by
  have hentries : ∀ (entries : List (String × Value)) (below : Value), below.IsTable →
      (mergeEntries entries below).IsTable := by
    intro entries
    induction entries with
    | nil =>
      intro below hbelow
      rwa [mergeEntries]
    | cons e rest ih =>
      intro below _
      obtain ⟨name, value⟩ := e
      rw [mergeEntries]
      exact ih _ (isTable_modifyEntry name _ below)
  obtain ⟨origin, entries, rfl⟩ := h
  rw [Value.merge]
  refine hentries entries below.asTable ?_
  cases below with
  | table origin entries => exact ⟨_, _, rfl⟩
  | scalar _ _ | list _ _ => exact ⟨_, _, rfl⟩

/-- What has no entries takes the place of anything below. -/
theorem merge_of_not_isTable {v : Value} (h : ¬ v.IsTable) (below : Value) : v.merge below = v := by
  cases v with
  | table origin entries => exact absurd ⟨_, _, rfl⟩ h
  | scalar _ _ | list _ _ => rw [Value.merge]

/-- The value has the values of the document at their paths, and nothing besides; no name stands
twice in a table. -/
structure Holds (v : Value) (format : Format) (origin : Option String) (doc : Document) :
    Prop where
  given : ∀ e ∈ doc.given, ∃ w, e.2.value? format origin = some w ∧ v.at? e.1 = some w
  within : ∀ path, v.at? path ≠ none → ∃ p ∈ doc.paths, path <+: p
  leaf : ∀ path w, v.at? path = some w → w.IsTable ∨ path ∈ doc.given.map Prod.fst
  increasing : ∀ path w, v.at? path = some w → Entries.Increasing w.entries

/-- A literal has no parts. -/
theorem at?_of_literal {format : Format} {origin : Option String} {l : Literal} {v w : Value}
    {path : List String} (h : l.value? format origin = some v) (hw : v.at? path = some w) :
    path = [] ∧ w = v ∧ ¬ v.IsTable ∧ v.entries = [] := by
  have hpath : ∀ {name : String} {rest : List String}, path = name :: rest → ¬ v.IsTable →
      False := by
    rintro name rest rfl hv
    exact hv (isTable_of_at? (by rw [hw]; exact Option.some_ne_none w))
  have hnone : ¬ v.IsTable → path = [] ∧ w = v := by
    intro hv
    cases path with
    | nil => exact ⟨rfl, (Option.some.inj hw).symm⟩
    | cons name rest => exact (hpath rfl hv).elim
  cases l with
  | token t =>
    obtain ⟨x, -, rfl⟩ := Option.map_eq_some_iff.mp
      (show (t.scalar? format).map (Value.scalar origin) = _ from h)
    have hv : ¬ (Value.scalar origin x).IsTable := by rintro ⟨_, _, he⟩; cases he
    exact ⟨(hnone hv).1, (hnone hv).2, hv, rfl⟩
  | list items =>
    obtain ⟨xs, -, rfl⟩ := Option.map_eq_some_iff.mp
      (show (items.mapM (Token.scalar? format)).map (fun values =>
        Value.list origin (values.map (.scalar origin))) = _ from h)
    have hv : ¬ (Value.list origin (xs.map (.scalar origin))).IsTable := by
      rintro ⟨_, _, he⟩
      cases he
    exact ⟨(hnone hv).1, (hnone hv).2, hv, rfl⟩

/-- A literal is no table. -/
theorem not_isTable_of_literal {format : Format} {origin : Option String} {l : Literal} {v : Value}
    (h : l.value? format origin = some v) : ¬ v.IsTable :=
  (at?_of_literal h (show v.at? [] = some v from rfl)).2.2.1

/-- The value of a literal is all that it holds. -/
theorem holds_literal {format : Format} {origin : Option String} {l : Literal} {v : Value}
    (h : l.value? format origin = some v) : v.Holds format origin (Term.literal l).document where
  given := by
    rintro _ (_ | ⟨_, ⟨⟩⟩)
    exact ⟨v, h, rfl⟩
  within path hpath := by
    obtain ⟨w, hw⟩ := Option.ne_none_iff_exists'.mp hpath
    obtain ⟨rfl, -⟩ := at?_of_literal h hw
    exact ⟨[], List.mem_singleton_self _, List.prefix_refl _⟩
  leaf path w hw := by
    obtain ⟨rfl, -⟩ := at?_of_literal h hw
    exact .inr (List.mem_singleton_self _)
  increasing path w hw := by
    obtain ⟨-, rfl, -, hentries⟩ := at?_of_literal h hw
    rw [hentries]
    exact List.Pairwise.nil

end Value

/-! ## Layers -/

/-- The names at the top of the document, other than that of the section, do not lead into it. -/
def Document.Avoids (doc : Document) (s : Section) : Prop :=
  ∀ path ∈ doc.paths, ∀ name ∈ path.head?, name = s.name ∨
    (Path.ofKey name).head? ≠ some (.entry s.name)

instance (doc : Document) (s : Section) : Decidable (doc.Avoids s) :=
  inferInstanceAs (Decidable (∀ _ ∈ _, ∀ _ ∈ _, _))

/-- A section comes from the layer's entry of its name. -/
theorem Layer.lookup?_over {layer : Layer} {s : Section}
    (hself : Path.ofKey s.name = [.entry s.name]) (hnodup : (layer.map Prod.fst).Nodup)
    (hothers : ∀ e ∈ layer, e.1 = s.name ∨ (Path.ofKey e.1).head? ≠ some (.entry s.name))
    (tree : Value) :
    (layer.over tree).lookup? s.name =
      ((Entries.find? s.name layer).map fun v =>
        v.merge ((tree.lookup? s.name).getD .null)).or (tree.lookup? s.name) := by
  induction layer generalizing tree with
  | nil => rfl
  | cons e rest ih =>
    obtain ⟨key, value⟩ := e
    obtain ⟨hnew, hrest⟩ := List.nodup_cons.mp hnodup
    have hothersRest := fun e he => hothers e (List.mem_cons_of_mem _ he)
    rw [over_cons, Entries.find?]
    by_cases hkey : key = s.name
    · -- The rest of the layer does not speak of the section any more.
      subst hkey
      have hsilent : ∀ e ∈ rest, (Path.ofKey e.1).head? ≠ some (.entry s.name) := fun e he =>
        (hothersRest e he).resolve_left fun hname => hnew (List.mem_map.mpr ⟨e, he, hname⟩)
      rw [Section.lookup?_over_of_silent hsilent, if_pos rfl, hself]
      show (tree.modifyEntry s.name _).lookup? s.name = _
      rw [Value.lookup?_modifyEntry_self]
      rfl
    · obtain ⟨name, steps, hpath⟩ := Path.exists_ofKey key
      have hne : s.name ≠ name := by
        rintro rfl
        exact (hothers _ List.mem_cons_self).elim hkey fun h => h (by rw [hpath]; rfl)
      rw [ih hrest hothersRest, if_neg hkey, hpath]
      show ((Entries.find? s.name rest).map fun v =>
        v.merge (((tree.modifyEntry name (Path.modify value.merge steps)).lookup? s.name).getD
          .null)).or ((tree.modifyEntry name (Path.modify value.merge steps)).lookup? s.name) = _
      rw [Value.lookup?_modifyEntry_ne hne]

namespace Value.Holds

variable {layer : Layer} {format : Format} {origin : Option String} {doc : Document} {s : Section}

/-- A section of a layer's tree is the layer's entry of its name. -/
theorem lookup?_tree (h : (table origin layer).Holds format origin doc) (hs : s ∈ sections)
    (havoids : doc.Avoids s) :
    layer.tree.lookup? s.name =
      ((table origin layer).at? [s.name]).map fun v => v.merge .null := by
  have hself : Path.ofKey s.name = [.entry s.name] :=
    (show ∀ s ∈ sections, Path.ofKey s.name = [.entry s.name] by decide) s hs
  have hincreasing : Entries.Increasing layer := h.increasing [] _ rfl
  have hat : ∀ name, (table origin layer).at? [name] = Entries.find? name layer := by
    intro name
    show (Entries.find? name layer).bind some = _
    cases Entries.find? name layer <;> rfl
  have hothers : ∀ e ∈ layer,
      e.1 = s.name ∨ (Path.ofKey e.1).head? ≠ some (.entry s.name) := by
    intro e he
    have hfound : (table origin layer).at? [e.1] = some e.2 :=
      (hat e.1).trans ((Entries.find?_eq_some_iff hincreasing).mpr he)
    -- An entry of the layer is the beginning of a path of the document.
    obtain ⟨p, hp, tail, rfl⟩ := h.within [e.1] (by rw [hfound]; exact Option.some_ne_none _)
    exact havoids _ hp e.1 rfl
  unfold Layer.tree
  rw [Layer.lookup?_over hself hincreasing.nodup hothers, hat]
  exact Option.or_none

/-- A field of a layer's tree is what the layer has at its path. -/
theorem field?_tree (h : (table origin layer).Holds format origin doc) (hs : s ∈ sections)
    (havoids : doc.Avoids s) (field : String) :
    layer.tree.field? s field =
      ((table origin layer).at? [s.name, field]).map fun v => v.merge .null := by
  have hsplit : (table origin layer).at? [s.name, field] =
      ((table origin layer).at? [s.name]).bind (at? [field]) :=
    at?_append [s.name] [field] _
  unfold field?
  rw [h.lookup?_tree hs havoids, hsplit]
  cases hsection : (table origin layer).at? [s.name] with
  | none => rfl
  | some v =>
    show (v.merge .null).lookup? field = Option.map _ ((v.lookup? field).bind some)
    rw [lookup?_merge_null (h.increasing _ v hsection).nodup]
    cases v.lookup? field <;> rfl

/-- What the document gives to a field, the layer's tree has there. -/
theorem field?_of_mem (h : (table origin layer).Holds format origin doc) (hs : s ∈ sections)
    (havoids : doc.Avoids s) {field : String} {l : Literal}
    (hmem : ([s.name, field], l) ∈ doc.given) :
    ∃ v, l.value? format origin = some v ∧ layer.tree.field? s field = some v := by
  obtain ⟨v, hv, hat⟩ := h.given _ hmem
  refine ⟨v, hv, ?_⟩
  rw [h.field?_tree hs havoids, hat, Option.map_some,
    merge_of_not_isTable (not_isTable_of_literal hv)]

/-- What the document gives to a section as a whole, the layer's tree has there. -/
theorem lookup?_of_mem (h : (table origin layer).Holds format origin doc) (hs : s ∈ sections)
    (havoids : doc.Avoids s) {l : Literal} (hmem : ([s.name], l) ∈ doc.given) :
    ∃ v, l.value? format origin = some v ∧ layer.tree.lookup? s.name = some v := by
  obtain ⟨v, hv, hat⟩ := h.given _ hmem
  refine ⟨v, hv, ?_⟩
  rw [h.lookup?_tree hs havoids, hat, Option.map_some,
    merge_of_not_isTable (not_isTable_of_literal hv)]

end Value.Holds

end MessageBroker.Config
