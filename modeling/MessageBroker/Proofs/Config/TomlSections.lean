import MessageBroker.Proofs.Config.TomlDocument

/-!
# TOML documents of sections

Settings stand in sections, which a document may write in three ways: behind a header, as the first
names of keys, or as tables in braces. A document that gives nothing twice and writes each section
in one way (`IsSectional`) is read if its words stand for values (`parse_isSome`). By induction
along the lines: what has been built says of each section in which way it came about (`Built`), so
no further line is refused.
-/

namespace MessageBroker.Config.Toml

/-! ## Documents of sections -/

/-- Below an open header, the line belongs to a section: it is empty or a header, or it gives a
field of the open section, a field under both names, or all of a section in braces. -/
inductive Row.IsSectional : List String → Row → Prop
  | nothing {header : List String} : Row.IsSectional header .nothing
  | header {header : List String} {name : String} : Row.IsSectional header (.header [] name)
  | field {name field : String} {l : Literal} : Row.IsSectional [name] (.entry [field] (.literal l))
  | dotted {name field : String} {l : Literal} :
    Row.IsSectional [] (.entry [name, field] (.literal l))
  | braces {name : String} {members : List (List String × Literal)}
    (h : ∀ m ∈ members, m.1.length = 1) : Row.IsSectional [] (.entry [name] (.table members))

/-- The section that a line gives a field of under both names. -/
def Row.dotted? : Row → Option String
  | .entry [name, _] (.literal _) => some name
  | _ => none

/-- Below an open header, all lines belong to sections. -/
def AreSectional (header : List String) : List Row → Prop
  | [] => True
  | row :: rows => row.IsSectional header ∧ AreSectional (row.next header) rows

/-- The document consists of sections; no field is given twice, no section is opened twice, and none
is opened whose fields are given under both names. -/
structure IsSectional (rows : List Row) : Prop where
  shape : AreSectional [] rows
  given : ((document rows).given.map Prod.fst).Nodup
  tables : (document rows).tables.Nodup
  apart : ∀ name ∈ rows.filterMap Row.dotted?, [name] ∉ (document rows).tables

/-! ## Building -/

section

variable {origin : Option String} {dotted : List String} {doc : Document} {draft : Parser.Draft}

/-- What has been built of a document of sections: each of them came about in one way, and the open
one by its header. -/
structure Built (origin : Option String) (dotted : List String) (doc : Document)
    (draft : Parser.Draft) : Prop where
  sound : draft.nodes.Sound origin
  holds : (draft.nodes.toValue origin).Holds .toml origin doc
  tables : ∀ p ∈ doc.tables, p.length ≤ 1
  given : ∀ p ∈ doc.given.map Prod.fst, p.length = 2
  node : ∀ name node, Entries.find? name draft.nodes = some node →
    [name] ∈ doc.tables ∧ ((∃ v, node = .value v) ∨ ∃ entries, node = .table .headed entries) ∨
      name ∈ dotted ∧ ∃ entries, node = .table .dotted entries
  header : draft.header = [] ∨ ∃ name entries, draft.header = [name] ∧
    Entries.find? name draft.nodes = some (.table .headed entries)

/-- A field that has not been given is free in the table of its section. -/
theorem Built.find?_eq_none (h : Built origin dotted doc draft) {name field : String}
    {making : Making} {entries : Nodes}
    (hfound : Entries.find? name draft.nodes = some (.table making entries))
    (hnew : [name, field] ∉ doc.given.map Prod.fst) : Entries.find? field entries = none := by
  cases hfree : Entries.find? field entries with
  | none => rfl
  | some node =>
    have hat : (draft.nodes.toValue origin).at? [name, field] = some (node.toValue origin) := by
      rw [at?_toValue, hfound, Option.bind_some, toValue_table, at?_toValue, hfree]
      rfl
    obtain ⟨p, hp, hbegins⟩ := h.holds.within [name, field] (by
      rw [hat]
      exact Option.some_ne_none _)
    have hlen := hbegins.length_le
    -- A path that begins with both names is too long for a table, so the field itself is given.
    rcases List.mem_append.mp hp with hp | hp
    · have hle := h.tables p hp
      simp only [List.length_cons, List.length_nil] at hlen
      omega
    · have heq : [name, field] = p :=
        hbegins.eq_of_length (h.given p hp).symm
      exact absurd (heq ▸ hp) hnew

/-- A section that has been neither opened nor given fields of under both names is free. -/
theorem Built.find?_section (h : Built origin dotted doc draft) {name : String}
    (hnew : [name] ∉ doc.tables) (hapart : name ∉ dotted) :
    Entries.find? name draft.nodes = none := by
  cases hfound : Entries.find? name draft.nodes with
  | none => rfl
  | some node =>
    rcases h.node name node hfound with ⟨hopen, -⟩ | ⟨hdotted, -⟩
    · exact absurd hopen hnew
    · exact absurd hdotted hapart

/-- What has been built goes on with a node that is put under the name of a section. -/
theorem Built.insert (h : Built origin dotted doc draft) {row : Row} (name : String) (node : Node)
    (header : List String)
    (happly : row.apply origin draft = some ⟨Entries.insert name node draft.nodes, header⟩)
    (htables : ∀ p ∈ (row.document draft.header).tables, p.length ≤ 1)
    (hgiven : ∀ p ∈ (row.document draft.header).given.map Prod.fst, p.length = 2)
    (hnode : [name] ∈ (doc.append (row.document draft.header)).tables ∧
        ((∃ v, node = .value v) ∨ ∃ entries, node = .table .headed entries) ∨
      name ∈ dotted ∧ ∃ entries, node = .table .dotted entries)
    (hheader : header = [] ∨ header = [name] ∧ ∃ entries, node = .table .headed entries) :
    ∃ draft', row.apply origin draft = some draft' ∧
      Built origin dotted (doc.append (row.document draft.header)) draft' := by
  obtain ⟨hsound, -, hholds⟩ := holds_apply h.sound h.holds happly
  refine ⟨_, happly, hsound, hholds, fun p hp => ?_, fun p hp => ?_, fun other found hfound => ?_,
    ?_⟩
  · exact (List.mem_append.mp hp).elim (h.tables p) (htables p)
  · have hp : p ∈ (doc.given ++ (row.document draft.header).given).map Prod.fst := hp
    rw [List.map_append] at hp
    exact (List.mem_append.mp hp).elim (h.given p) (hgiven p)
  · -- The other sections came about as before.
    by_cases hname : other = name
    · subst hname
      have hfound : Entries.find? other (Entries.insert other node draft.nodes) = some found :=
        hfound
      rw [Entries.find?_insert_self] at hfound
      obtain rfl := Option.some.inj hfound
      exact hnode
    · have hfound : Entries.find? other (Entries.insert name node draft.nodes) = some found :=
        hfound
      rw [Entries.find?_insert_ne hname] at hfound
      refine (h.node other found hfound).imp_left (And.imp_left fun hmem => ?_)
      exact List.mem_append.mpr (.inl hmem)
  · refine hheader.imp_right ?_
    rintro ⟨rfl, entries, rfl⟩
    exact ⟨name, entries, rfl, Entries.find?_insert_self _ _ _⟩

/-- Members with different names can be assigned if their tokens stand for values. -/
theorem exists_assignAll {members : List (List String × Literal)}
    (hnames : ∀ m ∈ members, m.1.length = 1) (hnodup : (members.map Prod.fst).Nodup)
    (hvalues : ∀ m ∈ members, (m.2.value? .toml origin).isSome) {nodes : Nodes}
    (hfree : ∀ field, [field] ∈ members.map Prod.fst → Entries.find? field nodes = none) :
    ∃ nodes', assignAll origin members nodes = some nodes' := by
  induction members generalizing nodes with
  | nil => exact ⟨nodes, rfl⟩
  | cons m members ih =>
    obtain ⟨hnew, hnodup⟩ := List.nodup_cons.mp hnodup
    obtain ⟨field, hfield⟩ := List.length_eq_one_iff.mp (hnames m List.mem_cons_self)
    obtain ⟨v, hv⟩ := Option.isSome_iff_exists.mp (hvalues m List.mem_cons_self)
    have hnone : Entries.find? field nodes = none :=
      hfree field (hfield ▸ List.mem_cons_self)
    have hassign : nodes.assign v m.1 = some (Entries.insert field (.value v) nodes) := by
      rw [hfield, Nodes.assign, hnone]
      rfl
    rw [assignAll_cons, hv, Option.bind_some, hassign, Option.bind_some]
    refine ih (fun m' hm' => hnames m' (List.mem_cons_of_mem _ hm')) hnodup
      (fun m' hm' => hvalues m' (List.mem_cons_of_mem _ hm')) fun other hother => ?_
    have hne : other ≠ field := by
      rintro rfl
      exact hnew (hfield ▸ hother)
    rw [Entries.find?_insert_ne hne]
    exact hfree other (List.mem_cons_of_mem _ hother)

/-- A section can be opened that is free. -/
theorem Built.exists_header (h : Built origin dotted doc draft) {name : String}
    (hfree : Entries.find? name draft.nodes = none) :
    ∃ draft', (Row.header [] name).apply origin draft = some draft' ∧
      Built origin dotted (doc.append ((Row.header [] name).document draft.header)) draft' := by
  obtain ⟨nodes, header⟩ := draft
  have hfree : Entries.find? name nodes = none := hfree
  have hopen : nodes.open? name = some (Entries.insert name (.table .headed []) nodes) := by
    unfold Nodes.open?
    rw [hfree]
  refine h.insert name (.table .headed []) [name] ?_ ?_ (by rintro _ ⟨⟩)
    (.inl ⟨List.mem_append.mpr (.inr (List.mem_singleton_self _)), .inr ⟨_, rfl⟩⟩)
    (.inr ⟨rfl, _, rfl⟩)
  · show (Nodes.within (Nodes.open? name) [] nodes).map _ = _
    rw [Nodes.within, hopen]
    rfl
  · rintro _ (_ | ⟨_, ⟨⟩⟩)
    exact Nat.le_refl 1

/-- The open section can be given a field that it does not have. -/
theorem Built.exists_field (h : Built origin dotted doc draft) {name field : String} {l : Literal}
    (hopen : draft.header = [name]) (hnew : [name, field] ∉ doc.given.map Prod.fst)
    (hvalue : (l.value? .toml origin).isSome) :
    ∃ draft', (Row.entry [field] (.literal l)).apply origin draft = some draft' ∧
      Built origin dotted
        (doc.append ((Row.entry [field] (.literal l)).document draft.header)) draft' := by
  obtain ⟨nodes, header⟩ := draft
  obtain rfl : header = [name] := hopen
  obtain ⟨entries, hfound⟩ : ∃ entries,
      Entries.find? name nodes = some (.table .headed entries) := by
    rcases h.header with hnil | ⟨other, entries, hother, hfound⟩
    · cases hnil
    · obtain rfl : name = other := (List.cons.inj hother).1
      exact ⟨entries, hfound⟩
  obtain ⟨v, hv⟩ := Option.isSome_iff_exists.mp hvalue
  have htable : [name] ∈ doc.tables := by
    rcases h.node name _ hfound with ⟨hmem, -⟩ | ⟨-, _, he⟩
    · exact hmem
    · cases he
  have hassign : Nodes.assign v [field] entries =
      some (Entries.insert field (.value v) entries) := by
    rw [Nodes.assign, h.find?_eq_none hfound hnew]
    rfl
  refine h.insert name (.table .headed (Entries.insert field (.value v) entries)) [name] ?_
    (by rintro _ ⟨⟩) ?_ (.inl ⟨List.mem_append.mpr (.inl htable), .inr ⟨_, rfl⟩⟩)
    (.inr ⟨rfl, _, rfl⟩)
  · show ((Term.literal l).value? origin).bind _ = _
    rw [show (Term.literal l).value? origin = some v from hv, Option.bind_some, Nodes.within,
      hfound]
    simp only [Option.getD_some, Nodes.within, hassign, Option.map_some]
  · rintro _ (_ | ⟨_, ⟨⟩⟩)
    rfl

/-- A section that is not opened can be given a field under both names, as long as it does not have
it. -/
theorem Built.exists_dotted (h : Built origin dotted doc draft) {name field : String} {l : Literal}
    (hclosed : draft.header = []) (hname : name ∈ dotted) (hunopened : [name] ∉ doc.tables)
    (hnew : [name, field] ∉ doc.given.map Prod.fst) (hvalue : (l.value? .toml origin).isSome) :
    ∃ draft', (Row.entry [name, field] (.literal l)).apply origin draft = some draft' ∧
      Built origin dotted
        (doc.append ((Row.entry [name, field] (.literal l)).document draft.header)) draft' := by
  obtain ⟨nodes, header⟩ := draft
  obtain rfl : header = [] := hclosed
  obtain ⟨v, hv⟩ := Option.isSome_iff_exists.mp hvalue
  obtain ⟨inner, hassign⟩ : ∃ inner, Nodes.assign v [name, field] nodes =
      some (Entries.insert name (.table .dotted inner) nodes) := by
    rw [Nodes.assign]
    cases hfound : Entries.find? name nodes with
    | none => exact ⟨_, rfl⟩
    | some node =>
      rcases h.node name node hfound with ⟨hopen, -⟩ | ⟨-, entries, rfl⟩
      · exact absurd hopen hunopened
      · refine ⟨Entries.insert field (.value v) entries, ?_⟩
        simp [Nodes.assign, h.find?_eq_none hfound hnew]
  refine h.insert name (.table .dotted inner) [] ?_ (by rintro _ ⟨⟩) ?_ (.inr ⟨hname, _, rfl⟩)
    (.inl rfl)
  · show ((Term.literal l).value? origin).bind _ = _
    rw [show (Term.literal l).value? origin = some v from hv, Option.bind_some, Nodes.within,
      hassign]
    rfl
  · rintro _ (_ | ⟨_, ⟨⟩⟩)
    rfl

/-- A section that is free can be given as a table in braces. -/
theorem Built.exists_braces (h : Built origin dotted doc draft) {name : String}
    {members : List (List String × Literal)} (hclosed : draft.header = [])
    (hfree : Entries.find? name draft.nodes = none) (hnames : ∀ m ∈ members, m.1.length = 1)
    (hnodup : (members.map Prod.fst).Nodup)
    (hvalues : ∀ m ∈ members, (m.2.value? .toml origin).isSome) :
    ∃ draft', (Row.entry [name] (.table members)).apply origin draft = some draft' ∧
      Built origin dotted
        (doc.append ((Row.entry [name] (.table members)).document draft.header)) draft' := by
  obtain ⟨nodes, header⟩ := draft
  obtain rfl : header = [] := hclosed
  have hfree : Entries.find? name nodes = none := hfree
  obtain ⟨inner, hinner⟩ : ∃ inner, assignAll origin members [] = some inner :=
    exists_assignAll hnames hnodup hvalues fun _ _ => rfl
  have hterm : (Term.table members).value? origin =
      some (.table origin (nodesToEntries origin inner)) := by
    show (assignAll origin members []).map _ = _
    rw [hinner]
    rfl
  have hassign : ∀ v, Nodes.assign v [name] nodes =
      some (Entries.insert name (.value v) nodes) := fun v => by
    rw [Nodes.assign, hfree]
    rfl
  refine h.insert name (.value (.table origin (nodesToEntries origin inner))) [] ?_ ?_ ?_
    (.inl ⟨List.mem_append.mpr (.inr (List.mem_singleton_self _)), .inl ⟨_, rfl⟩⟩) (.inl rfl)
  · show ((Term.table members).value? origin).bind _ = _
    rw [hterm, Option.bind_some, Nodes.within, hassign]
    rfl
  · rintro _ (_ | ⟨_, ⟨⟩⟩)
    exact Nat.le_refl 1
  · intro p hp
    rw [show ((Row.entry [name] (.table members)).document []).given =
      members.map fun m => ([name] ++ m.1, m.2) from rfl, List.map_map] at hp
    obtain ⟨m, hm, rfl⟩ := List.mem_map.mp hp
    show ([name] ++ m.1).length = 2
    rw [List.length_append, hnames m hm]
    rfl

/-- A line of a section is not refused if it gives nothing that was given and opens nothing that was
opened. -/
theorem Built.exists_apply (h : Built origin dotted doc draft) {row : Row}
    (hrow : row.IsSectional draft.header)
    (hgiven : ((doc.append (row.document draft.header)).given.map Prod.fst).Nodup)
    (htables : (doc.append (row.document draft.header)).tables.Nodup)
    (hapart : ∀ name ∈ dotted, [name] ∉ (doc.append (row.document draft.header)).tables)
    (hdotted : ∀ name ∈ row.dotted?, name ∈ dotted)
    (hvalues : ∀ e ∈ (row.document draft.header).given, (e.2.value? .toml origin).isSome) :
    ∃ draft', row.apply origin draft = some draft' ∧
      Built origin dotted (doc.append (row.document draft.header)) draft' := by
  have hgiven : (doc.given.map Prod.fst ++
      (row.document draft.header).given.map Prod.fst).Nodup := by
    rw [← List.map_append]
    exact hgiven
  have hnew : ∀ p ∈ (row.document draft.header).given.map Prod.fst,
      p ∉ doc.given.map Prod.fst := fun p hp hold =>
    (List.nodup_append.mp hgiven).2.2 p hold p hp rfl
  have hfree : ∀ name, [name] ∈ (row.document draft.header).tables →
      Entries.find? name draft.nodes = none := fun name hname =>
    h.find?_section (fun hold => (List.nodup_append.mp htables).2.2 _ hold _ hname rfl) fun hmem =>
      hapart name hmem (List.mem_append.mpr (.inr hname))
  -- The cases of the line fix the open header, which is a part of the draft.
  obtain ⟨header, hheader⟩ : ∃ header, draft.header = header := ⟨_, rfl⟩
  rw [hheader] at hrow hnew hfree hvalues hgiven
  cases hrow with
  | nothing => exact ⟨_, rfl, by rwa [Row.document, Document.append_nil]⟩
  | header => exact h.exists_header (hfree _ (List.mem_singleton_self _))
  | field =>
    exact h.exists_field hheader (hnew _ (List.mem_singleton_self _))
      (hvalues _ (List.mem_singleton_self _))
  | @dotted name field l =>
    have hname : name ∈ dotted := hdotted name rfl
    exact h.exists_dotted hheader hname
      (fun hopen => hapart name hname (List.mem_append.mpr (.inl hopen)))
      (hnew _ (List.mem_singleton_self _)) (hvalues _ (List.mem_singleton_self _))
  | @braces name members hmembers =>
    have hunder : ((members.map fun m => ([name] ++ m.1, m.2)).map Prod.fst).Nodup :=
      (List.nodup_append.mp hgiven).2.1
    rw [List.map_map] at hunder
    have hnodup : (members.map Prod.fst).Nodup :=
      List.pairwise_map.mpr ((List.pairwise_map.mp hunder).imp fun hne he =>
        hne (congrArg ([name] ++ ·) he))
    exact h.exists_braces hheader (hfree name (List.mem_singleton_self _)) hmembers hnodup
      fun m hm => hvalues ([name] ++ m.1, m.2) (List.mem_map.mpr ⟨m, hm, rfl⟩)

/-- Lines of sections are not refused if they give nothing twice, open nothing twice, and open no
section that they give fields of under both names. -/
theorem Built.exists_build {rows : List Row} (h : Built origin dotted doc draft)
    (hrows : AreSectional draft.header rows)
    (hgiven : ((doc.append (documentBelow draft.header rows)).given.map Prod.fst).Nodup)
    (htables : (doc.append (documentBelow draft.header rows)).tables.Nodup)
    (hapart : ∀ name ∈ dotted, [name] ∉ (doc.append (documentBelow draft.header rows)).tables)
    (hdotted : ∀ name ∈ rows.filterMap Row.dotted?, name ∈ dotted)
    (hvalues : ∀ e ∈ (documentBelow draft.header rows).given,
      (e.2.value? .toml origin).isSome) :
    ∃ draft', build origin rows draft = some draft' := by
  induction rows generalizing doc draft with
  | nil => exact ⟨draft, rfl⟩
  | cons row rows ih =>
    -- What holds of the whole document holds of its lines up to this one.
    obtain ⟨hrow, hrows⟩ := hrows
    rw [documentBelow, ← Document.append_assoc] at hgiven htables
    have hlater : ∀ {p : List String}, p ∈ (doc.append (row.document draft.header)).tables →
        p ∈ (doc.append (documentBelow draft.header (row :: rows))).tables := fun hp => by
      rw [documentBelow, ← Document.append_assoc]
      exact List.mem_append.mpr (.inl hp)
    have hgivenFirst : ((doc.append (row.document draft.header)).given.map Prod.fst).Nodup := by
      have hall : (((doc.append (row.document draft.header)).given ++
          (documentBelow (row.next draft.header) rows).given).map Prod.fst).Nodup := hgiven
      rw [List.map_append] at hall
      exact (List.nodup_append.mp hall).1
    obtain ⟨next, happly, hnext⟩ := h.exists_apply hrow hgivenFirst
      (List.nodup_append.mp htables).1 (fun name hname hmem => hapart name hname (hlater hmem))
      (fun name hname => hdotted name (List.mem_filterMap.mpr ⟨row, List.mem_cons_self, hname⟩))
      (fun e he => hvalues e (List.mem_append.mpr (.inl he)))
    have hheader : next.header = row.next draft.header := (holds_apply h.sound h.holds happly).2.1
    rw [build_cons, happly, Option.bind_some]
    refine ih hnext (hheader ▸ hrows) (hheader ▸ hgiven) (hheader ▸ htables) ?_
      (fun name hname => hdotted name ?_) fun e he => hvalues e ?_
    · intro name hname
      rw [hheader, Document.append_assoc]
      exact hapart name hname
    · obtain ⟨row', hrow', hsome⟩ := List.mem_filterMap.mp hname
      exact List.mem_filterMap.mpr ⟨row', List.mem_cons_of_mem _ hrow', hsome⟩
    · rw [hheader] at he
      exact List.mem_append.mpr (.inr he)

end

/-- A document of sections is read if its tokens stand for values. -/
theorem parse_isSome {text : List Char} {rows : List Row} (h : IsDocument text rows)
    (hrows : IsSectional rows) {origin : Option String}
    (hvalues : ∀ e ∈ (document rows).given, (e.2.value? .toml origin).isSome) :
    (parse origin text).isSome := by
  have hbuilt : Built origin (rows.filterMap Row.dotted?) Document.root ⟨[], []⟩ :=
    ⟨Nodes.sound_nil, holds_nil origin, by
      rintro _ (_ | ⟨_, ⟨⟩⟩)
      exact Nat.zero_le 1, nofun, nofun, .inl rfl⟩
  obtain ⟨draft, hbuild⟩ := hbuilt.exists_build hrows.shape hrows.given hrows.tables hrows.apart
    (fun _ hname => hname) hvalues
  rw [parse_of_isDocument h, hbuild]
  rfl

/-! ## A section in plain layout -/

/-- A section behind its header, with a line for each field and its word. -/
def sectionText (name : List Char) (fields : List (List Char × List Char)) : List Char :=
  '[' :: (name ++ ']' :: '\n' ::
    fields.flatMap fun f => f.1 ++ ' ' :: '=' :: ' ' :: (f.2 ++ ['\n']))

/-- The lines of a section behind its header. -/
def sectionRows (name : List Char) (fields : List (List Char × List Char)) : List Row :=
  .header [] (String.ofList name) ::
    fields.map fun f => .entry [String.ofList f.1] (.literal (.token (.word f.2)))

/-- The characters of a bare name. -/
def IsBareName (s : List Char) : Prop := s ≠ [] ∧ s.all Parser.isBare = true

instance (s : List Char) : Decidable (IsBareName s) := inferInstanceAs (Decidable (_ ∧ _))

variable {name : List Char} {fields : List (List Char × List Char)}

/-- A word that writes an integer is a token. -/
theorem isToken_of_written {s : List Char} {i : Int} (h : written? s = some i) :
    IsToken s (.word s) := by
  refine .word ?_ fun c => isAtomChar_of_written h
  rintro rfl
  cases h

/-- A section in plain layout is a document if its words write integers. -/
theorem isDocument_section (hname : IsBareName name)
    (hfields : ∀ f ∈ fields, IsBareName f.1 ∧ (written? f.2).isSome) :
    IsDocument (sectionText name fields) (sectionRows name fields) := by
  have hnone : IsBlank [] := fun c hc => absurd hc List.not_mem_nil
  have hspace : IsBlank [' '] := fun c hc => by
    rw [List.mem_singleton.mp hc]
    rfl
  have hrows : IsDocument (fields.flatMap fun f => f.1 ++ ' ' :: '=' :: ' ' :: (f.2 ++ ['\n']))
      (fields.map fun f => .entry [String.ofList f.1] (.literal (.token (.word f.2)))) := by
    induction fields with
    | nil => exact .nil
    | cons f fields ih =>
      obtain ⟨⟨hne, hbare⟩, hword⟩ := hfields f List.mem_cons_self
      obtain ⟨i, hi⟩ := Option.isSome_iff_exists.mp hword
      have hrow := IsRow.entry hnone (.last (.bare hne (List.all_eq_true.mp hbare)) hspace) hspace
        (.literal (.token (isToken_of_written hi))) hnone .nothing
      have hall := IsDocument.cons hrow .feed (ih fun f hf => hfields f (List.mem_cons_of_mem _ hf))
      simpa only [List.flatMap_cons, List.map_cons, List.append_assoc, List.cons_append,
        List.nil_append] using hall
  have hheader : IsRow _ (.header [] (String.ofList name)) :=
    .header hnone hnone (.last (.bare hname.1 (List.all_eq_true.mp hname.2)) hnone) hnone .nothing
  have hall := IsDocument.cons hheader .feed hrows
  unfold sectionText sectionRows
  simpa only [List.append_nil, List.nil_append, List.append_assoc, List.cons_append] using hall

/-- A section in plain layout gives its words to its fields. -/
theorem document_section (name : List Char) (fields : List (List Char × List Char)) :
    document (sectionRows name fields) =
      ⟨[[], [String.ofList name]], fields.map fun f =>
        ([String.ofList name, String.ofList f.1], .token (.word f.2))⟩ := by
  have hrows : ∀ header, documentBelow header (fields.map fun f =>
        .entry [String.ofList f.1] (.literal (.token (.word f.2)))) =
      ⟨[], fields.map fun f => (header ++ [String.ofList f.1], .token (.word f.2))⟩ := by
    intro header
    induction fields with
    | nil => rfl
    | cons f fields ih =>
      rw [List.map_cons, documentBelow, Row.next, ih]
      show Document.append ⟨[], [(header ++ [String.ofList f.1] ++ [], _)]⟩ _ = _
      rw [List.append_nil]
      rfl
  unfold sectionRows document
  rw [documentBelow, Row.next, hrows]
  rfl

/-- A section in plain layout is a document of sections if its fields have different names. -/
theorem isSectional_section (name : List Char) (hnodup : (fields.map Prod.fst).Nodup) :
    IsSectional (sectionRows name fields) where
  shape := by
    refine ⟨.header, ?_⟩
    induction fields with
    | nil => trivial
    | cons f fields ih => exact ⟨.field, ih (List.nodup_cons.mp hnodup).2⟩
  given := by
    rw [document_section, List.map_map]
    refine List.pairwise_map.mpr ((List.pairwise_map.mp hnodup).imp fun hne he => hne ?_)
    exact String.ofList_injective (List.cons.inj (List.cons.inj he).2).1
  tables := by
    rw [document_section]
    simp
  apart := by
    intro other hother
    obtain ⟨row, hrow, hdotted⟩ := List.mem_filterMap.mp hother
    rcases List.mem_cons.mp hrow with rfl | hrow
    · cases hdotted
    · obtain ⟨f, -, rfl⟩ := List.mem_map.mp hrow
      cases hdotted

end MessageBroker.Config.Toml
