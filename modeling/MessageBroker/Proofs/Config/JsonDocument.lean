import MessageBroker.Proofs.Config.JsonReads

/-!
# JSON documents

What a JSON text says (`document`) is found in the table of its settings, under the same paths and
with the values that its tokens stand for (`holds_of_parse`). An object holds what its members say,
once for entries and once for the literals in them.
-/

namespace MessageBroker

namespace Json

open Config (Token Literal Term Document Value Scalar entriesOfJson itemsOfJson scalarOfNumber)

/-! ## What a document doc -/

section

variable {α : Type}

/-- What the members of an object say, under their names. -/
def objectDocument (doc : α → Document) (ms : List (String × α)) : Document :=
  ⟨[] :: ms.flatMap fun m => ((doc m.2).under [m.1]).tables,
    ms.flatMap fun m => ((doc m.2).under [m.1]).given⟩

/-- What an entry says. -/
def Entry.document : Entry → Document
  | .literal l => (Term.literal l).document
  | .object ms => objectDocument (fun l => (Term.literal l).document) ms

/-- What the entries of a document say. -/
def document (entries : List (String × Entry)) : Document := objectDocument Entry.document entries

variable {doc : α → Document} {ms : List (String × α)}

/-- The paths of an object are its own and those of its members. -/
theorem mem_paths_objectDocument {path : List String} :
    path ∈ (objectDocument doc ms).paths ↔
      path = [] ∨ ∃ m ∈ ms, ∃ q ∈ (doc m.2).paths, path = m.1 :: q := by
  unfold objectDocument Document.paths Document.under
  simp only [List.map_flatMap, List.map_map, List.mem_append, List.mem_cons, List.mem_flatMap,
    List.mem_map, Function.comp_apply, List.cons_append, List.nil_append]
  refine or_congr_right ⟨?_, ?_⟩
  · rintro (⟨m, hm, q, hq, rfl⟩ | ⟨m, hm, e, he, rfl⟩)
    · exact ⟨m, hm, q, .inl hq, rfl⟩
    · exact ⟨m, hm, e.1, .inr ⟨e, he, rfl⟩, rfl⟩
  · rintro ⟨m, hm, q, hq | ⟨e, he, rfl⟩, rfl⟩
    · exact .inl ⟨m, hm, q, hq, rfl⟩
    · exact .inr ⟨m, hm, e, he, rfl⟩

/-- What an object gives, one of its members gives. -/
theorem mem_given_objectDocument {e : List String × Literal} :
    e ∈ (objectDocument doc ms).given ↔
      ∃ m ∈ ms, ∃ given ∈ (doc m.2).given, e = (m.1 :: given.1, given.2) := by
  unfold objectDocument Document.under
  simp only [List.mem_flatMap, List.mem_map, List.cons_append, List.nil_append, eq_comm]

/-! ## Members of objects -/

variable {json? : α → Option Json} {done members : List (String × Json)}

/-- All members of an object that could be put in have values. -/
theorem exists_of_insertAll (h : insertAll json? ms done = some members) :
    ∀ m ∈ ms, ∃ v, json? m.2 = some v := by
  induction ms generalizing done with
  | nil => nofun
  | cons m ms ih =>
    rw [insertAll_cons] at h
    obtain ⟨v, hv, hrest⟩ := Option.bind_eq_some_iff.mp h
    intro m' hm'
    rcases List.mem_cons.mp hm' with rfl | hm'
    · exact ⟨v, hv⟩
    · exact ih hrest m' hm'

/-- If all members have values, they can be put in. -/
theorem isSome_insertAll (h : ∀ m ∈ ms, (json? m.2).isSome) :
    (insertAll json? ms done).isSome := by
  induction ms generalizing done with
  | nil => rfl
  | cons m ms ih =>
    obtain ⟨v, hv⟩ := Option.isSome_iff_exists.mp (h m List.mem_cons_self)
    rw [insertAll_cons, hv, Option.bind_some]
    exact ih fun m' hm' => h m' (List.mem_cons_of_mem _ hm')

/-- Where members are put in, names increase. -/
theorem increasing_insertAll (h : insertAll json? ms done = some members)
    (hdone : Entries.Increasing done) : Entries.Increasing members := by
  induction ms generalizing done with
  | nil =>
    cases h
    exact hdone
  | cons m ms ih =>
    rw [insertAll_cons] at h
    obtain ⟨v, -, hrest⟩ := Option.bind_eq_some_iff.mp h
    exact ih hrest (hdone.insert m.1 v)

/-- Members with different names are found under their names, and nothing else besides what was
there. -/
theorem find?_insertAll (hnodup : (ms.map Prod.fst).Nodup)
    (h : insertAll json? ms done = some members) (name : String) :
    Entries.find? name members =
      ((Entries.find? name ms).bind json?).or (Entries.find? name done) := by
  induction ms generalizing done with
  | nil =>
    cases h
    rfl
  | cons m ms ih =>
    obtain ⟨key, a⟩ := m
    obtain ⟨hnew, hnodup⟩ := List.nodup_cons.mp hnodup
    rw [insertAll_cons] at h
    obtain ⟨v, hv, hrest⟩ := Option.bind_eq_some_iff.mp h
    rw [ih hnodup hrest, Entries.find?]
    by_cases hname : key = name
    · subst hname
      -- No later member has this name, so none takes the place of this one.
      have hnone : Entries.find? key ms = none := by
        cases hfound : Entries.find? key ms with
        | none => rfl
        | some other => exact absurd (List.mem_map_of_mem (Entries.mem_of_find? hfound)) hnew
      rw [hnone, if_pos rfl, Entries.find?_insert_self, Option.bind_some, hv]
      rfl
    · rw [if_neg hname, Entries.find?_insert_ne (Ne.symm hname)]

variable {origin : Option String}

/-- The entries of an object are its members under the same names. -/
theorem entriesOfJson_eq (origin : Option String) (members : List (String × Json)) :
    entriesOfJson origin members = members.map fun m => (m.1, Value.ofJson origin m.2) := by
  induction members with
  | nil => rw [entriesOfJson, List.map_nil]
  | cons m members ih =>
    obtain ⟨name, member⟩ := m
    rw [entriesOfJson, ih, List.map_cons]

/-- What stands below a name of an object stands in the value of that member. -/
theorem at?_entriesOfJson (hnodup : (ms.map Prod.fst).Nodup)
    (hmembers : insertAll json? ms [] = some members) (name : String) (rest : List String) :
    (Value.table origin (entriesOfJson origin members)).at? (name :: rest) =
      (((Entries.find? name ms).bind json?).map (Value.ofJson origin)).bind (Value.at? rest) := by
  show (Entries.find? name (entriesOfJson origin members)).bind (Value.at? rest) = _
  rw [entriesOfJson_eq, Entries.find?_map, find?_insertAll hnodup hmembers name]
  congr 2
  exact Option.or_none

/-- An object holds what its members say if the values of these do. -/
theorem holds_object (hnodup : (ms.map Prod.fst).Nodup)
    (hmembers : insertAll json? ms [] = some members)
    (hvalues : ∀ m ∈ ms, ∀ v, json? m.2 = some v →
      (Value.ofJson origin v).Holds .json origin (doc m.2)) :
    (Value.ofJson origin (.object members)).Holds .json origin (objectDocument doc ms) := by
  -- What is found below a name is found in the value of a member.
  have hinner : ∀ {name rest w}, (Value.table origin (entriesOfJson origin members)).at?
      (name :: rest) = some w → ∃ a v, (name, a) ∈ ms ∧
        (Value.ofJson origin v).Holds .json origin (doc a) ∧
          (Value.ofJson origin v).at? rest = some w := by
    intro name rest w hw
    rw [at?_entriesOfJson hnodup hmembers] at hw
    obtain ⟨u, hu, hw⟩ := Option.bind_eq_some_iff.mp hw
    obtain ⟨v, hv, rfl⟩ := Option.map_eq_some_iff.mp hu
    obtain ⟨a, ha, hv⟩ := Option.bind_eq_some_iff.mp hv
    have hmem := Entries.mem_of_find? ha
    exact ⟨a, v, hmem, hvalues _ hmem v hv, hw⟩
  rw [Value.ofJson]
  constructor
  case given =>
    intro e he
    obtain ⟨m, hm, given, hgiven, rfl⟩ := mem_given_objectDocument.mp he
    obtain ⟨v, hv⟩ := exists_of_insertAll hmembers m hm
    obtain ⟨w, hw, hwat⟩ := (hvalues m hm v hv).given given hgiven
    refine ⟨w, hw, ?_⟩
    rw [at?_entriesOfJson hnodup hmembers, (Entries.find?_eq_some_iff_of_nodup hnodup).mpr hm,
      Option.bind_some, hv]
    exact hwat
  case within =>
    intro path hpath
    cases path with
    | nil => exact ⟨[], mem_paths_objectDocument.mpr (.inl rfl), List.prefix_refl _⟩
    | cons name rest =>
      obtain ⟨w, hw⟩ := Option.ne_none_iff_exists'.mp hpath
      obtain ⟨a, v, hmem, hholds, hw⟩ := hinner hw
      obtain ⟨q, hq, hbegins⟩ := hholds.within rest (by rw [hw]; exact Option.some_ne_none w)
      exact ⟨name :: q, mem_paths_objectDocument.mpr (.inr ⟨_, hmem, q, hq, rfl⟩),
        List.cons_prefix_cons.mpr ⟨rfl, hbegins⟩⟩
  case leaf =>
    intro path w hw
    cases path with
    | nil =>
      obtain rfl := Option.some.inj hw
      exact .inl ⟨_, _, rfl⟩
    | cons name rest =>
      obtain ⟨a, v, hmem, hholds, hw⟩ := hinner hw
      refine (hholds.leaf rest w hw).imp_right fun hrest => ?_
      obtain ⟨given, hgiven, rfl⟩ := List.mem_map.mp hrest
      exact List.mem_map.mpr
        ⟨_, mem_given_objectDocument.mpr ⟨_, hmem, given, hgiven, rfl⟩, rfl⟩
  case increasing =>
    intro path w hw
    cases path with
    | nil =>
      obtain rfl := Option.some.inj hw
      show Entries.Increasing (entriesOfJson origin members)
      rw [entriesOfJson_eq]
      exact (increasing_insertAll hmembers List.Pairwise.nil).map _
    | cons name rest =>
      obtain ⟨a, v, -, hholds, hw⟩ := hinner hw
      exact hholds.increasing rest w hw

end

/-! ## Literals -/

variable {origin : Option String}

/-- The setting that a token of JSON stands for. -/
theorem ofJson_token (origin : Option String) (t : Token) :
    (ofToken? t).map (Value.ofJson origin) = (t.scalar? .json).map (.scalar origin) := by
  have hscalar : Value.ofJson origin ∘ Json.number = Value.scalar origin ∘ scalarOfNumber := by
    funext n
    rw [Function.comp_apply, Value.ofJson]
    rfl
  cases t with
  | text value =>
    show some (Value.ofJson origin (.string value)) = some (.scalar origin (.text value))
    rw [Value.ofJson]
  | word chars =>
    show (ofToken? (.word chars)).map _ = (Config.Format.wordScalar? .json chars).map _
    unfold ofToken? Config.Format.wordScalar?
    dsimp only
    split
    · rw [Option.map_some, Option.map_some, Value.ofJson]
    · split
      · rw [Option.map_some, Option.map_some, Value.ofJson]
      · split
        · rw [Option.map_some, Option.map_some, Value.ofJson]
        · unfold ofNumeral?
          rw [Option.map_map, hscalar, ← Option.map_map]

/-- The settings that tokens of JSON stand for. -/
theorem itemsOfJson_mapM (origin : Option String) (ts : List Token) :
    (ts.mapM ofToken?).map (itemsOfJson origin) =
      (ts.mapM (Token.scalar? .json)).map (List.map (.scalar origin)) := by
  induction ts with
  | nil =>
    show some (itemsOfJson origin []) = some []
    rw [itemsOfJson]
  | cons t ts ih =>
    have htoken := ofJson_token origin t
    rw [List.mapM_cons, List.mapM_cons]
    cases hvalue : ofToken? t with
    | none =>
      rw [hvalue] at htoken
      rw [Option.map_eq_none_iff.mp htoken.symm]
      rfl
    | some v =>
      rw [hvalue] at htoken
      obtain ⟨x, hx, hv⟩ := Option.map_eq_some_iff.mp htoken.symm
      rw [hx]
      cases hvalues : ts.mapM ofToken? with
      | none =>
        rw [hvalues] at ih
        rw [Option.map_eq_none_iff.mp ih.symm]
        rfl
      | some vs =>
        rw [hvalues] at ih
        obtain ⟨xs, hxs, hvs⟩ := Option.map_eq_some_iff.mp ih.symm
        rw [hxs]
        show some (itemsOfJson origin (v :: vs)) = some (.scalar origin x :: xs.map _)
        rw [itemsOfJson, hv, hvs]

/-- The setting that a literal of JSON stands for. -/
theorem ofJson_literal (origin : Option String) (l : Literal) :
    (ofLiteral? l).map (Value.ofJson origin) = l.value? .json origin := by
  cases l with
  | token t => exact ofJson_token origin t
  | list ts =>
    have harray : Value.ofJson origin ∘ Json.array = Value.list origin ∘ itemsOfJson origin := by
      funext vs
      rw [Function.comp_apply, Value.ofJson]
      rfl
    show ((ts.mapM ofToken?).map Json.array).map (Value.ofJson origin) =
      (ts.mapM (Token.scalar? .json)).map (Value.list origin ∘ List.map (.scalar origin))
    rw [Option.map_map, harray, ← Option.map_map, itemsOfJson_mapM, Option.map_map]

/-- The setting of a literal is all that the literal says. -/
theorem holds_ofLiteral {l : Literal} {v : Json} (h : ofLiteral? l = some v) :
    (Value.ofJson origin v).Holds .json origin (Term.literal l).document := by
  refine Value.holds_literal ?_
  rw [← ofJson_literal, h]
  rfl

/-! ## Documents -/

/-- Each value of written members is written. -/
theorem exists_of_isMembers {α : Type} {isValue : List Char → α → Prop} {text : List Char}
    {ms : List (String × α)} (h : IsMembers isValue text ms) :
    ∀ m ∈ ms, ∃ s, isValue s m.2 := by
  induction h with
  | last _ _ _ _ hs _ =>
    rintro _ (_ | ⟨_, ⟨⟩⟩)
    exact ⟨_, hs⟩
  | cons _ _ _ _ hs _ _ ih =>
    rintro m (_ | ⟨_, hm⟩)
    · exact ⟨_, hs⟩
    · exact ih m hm

/-- The members of a written object have different names, and their values are written. -/
theorem IsObject.names {α : Type} {isValue : List Char → α → Prop} {text : List Char}
    {ms : List (String × α)} (h : IsObject isValue text ms) :
    (ms.map Prod.fst).Nodup ∧ ∀ m ∈ ms, ∃ s, isValue s m.2 := by
  cases h with
  | empty => exact ⟨List.nodup_nil, nofun⟩
  | members hs hnodup => exact ⟨hnodup, exists_of_isMembers hs⟩

/-- The setting of an entry is all that the entry says. -/
theorem holds_ofEntry {s : List Char} {entry : Entry} (hs : IsEntry s entry) {v : Json}
    (h : Entry.value? entry = some v) :
    (Value.ofJson origin v).Holds .json origin entry.document := by
  cases hs with
  | literal => exact holds_ofLiteral h
  | @object ms hs =>
    obtain ⟨members, hmembers, rfl⟩ := Option.map_eq_some_iff.mp
      (show (insertAll ofLiteral? ms []).map Json.object = some v from h)
    show (Value.ofJson origin (.object members)).Holds .json origin
      (objectDocument (fun l => (Term.literal l).document) ms)
    exact holds_object hs.names.1 hmembers fun m _ v hv => holds_ofLiteral hv

/-- The table that is read from a document holds what the document says. -/
theorem holds_of_parse {text : List Char} {entries : List (String × Entry)}
    (h : IsDocument text entries) {members : List (String × Json)}
    (hparse : parse (Utf8.encode text) = .ok (.object members)) :
    (Value.table origin (entriesOfJson origin members)).Holds .json origin (document entries) := by
  have hread := parse_of_isDocument h
  rw [hparse] at hread
  obtain ⟨found, hfound, he⟩ := Option.map_eq_some_iff.mp hread.symm
  obtain rfl : found = members := by cases he; rfl
  cases h with
  | object _ hs _ =>
    obtain ⟨hnodup, hwritten⟩ := hs.names
    have hvalues : ∀ m ∈ entries, ∀ v, Entry.value? m.2 = some v →
        (Value.ofJson origin v).Holds .json origin m.2.document := fun m hm v hv => by
      obtain ⟨s, hs⟩ := hwritten m hm
      exact holds_ofEntry hs hv
    have hall := holds_object hnodup hfound hvalues
    rwa [Value.ofJson] at hall

/-- A literal has a value in an object if it stands for a setting. -/
theorem isSome_ofLiteral (origin : Option String) (l : Literal) :
    (ofLiteral? l).isSome = (l.value? .json origin).isSome := by
  rw [← ofJson_literal, Option.isSome_map]

/-- A document is read if its tokens stand for values. -/
theorem exists_parse {text : List Char} {entries : List (String × Entry)}
    (h : IsDocument text entries)
    (hvalues : ∀ e ∈ (document entries).given, (e.2.value? .json origin).isSome) :
    ∃ members, parse (Utf8.encode text) = .ok (.object members) := by
  have hentry : ∀ e ∈ entries, (Entry.value? e.2).isSome := by
    rintro ⟨name, entry⟩ he
    have hgiven : ∀ given ∈ entry.document.given, (ofLiteral? given.2).isSome := fun given hg => by
      rw [isSome_ofLiteral origin]
      exact hvalues (name :: given.1, given.2)
        (mem_given_objectDocument.mpr ⟨(name, entry), he, given, hg, rfl⟩)
    cases entry with
    | literal l => exact hgiven _ (List.mem_singleton_self _)
    | object ms =>
      show ((insertAll ofLiteral? ms []).map Json.object).isSome
      rw [Option.isSome_map]
      refine isSome_insertAll fun m hm => ?_
      exact hgiven _ (mem_given_objectDocument.mpr ⟨m, hm, _, List.mem_singleton_self _, rfl⟩)
  have hsome : (insertAll Entry.value? entries []).isSome := isSome_insertAll hentry
  obtain ⟨members, hmembers⟩ := Option.isSome_iff_exists.mp hsome
  have hread := parse_of_isDocument h
  rw [hmembers] at hread
  refine ⟨members, ?_⟩
  cases hparse : parse (Utf8.encode text) with
  | error e =>
    rw [hparse] at hread
    cases hread
  | ok v =>
    rw [hparse] at hread
    rw [Option.some.inj (show some v = some (.object members) from hread)]

/-- A document does not begin with a byte order mark. -/
theorem head_of_isDocument {text : List Char} {entries : List (String × Entry)}
    (h : IsDocument text entries) : text.head? ≠ some '\ufeff' := by
  cases h with
  | @object b s b' entries hb hs _ =>
    cases b with
    | nil => cases hs <;> exact fun h => absurd (Option.some.inj h) (by decide)
    | cons c b =>
      intro h
      have hc : c ∈ [' ', '\n', '\t', '\r'] := hb c List.mem_cons_self
      rw [Option.some.inj (show some c = some '\ufeff' from h)] at hc
      exact absurd hc (by decide)

/-! ## A section in compact form -/

/-- Members with a word each. -/
def wordsText : List (String × List Char) → List Char
  | [] => []
  | [f] => Json.literal f.1 ++ ':' :: f.2
  | f :: fields => Json.literal f.1 ++ ':' :: (f.2 ++ ',' :: wordsText fields)

/-- An object with one section, which has a word for each field. -/
def sectionText (name : String) (fields : List (String × List Char)) : List Char :=
  '\x7b' :: (Json.literal name ++ ':' :: '\x7b' :: (wordsText fields ++ ['\x7d', '\x7d']))

/-- The entries of an object with one section. -/
def sectionEntries (name : String) (fields : List (String × List Char)) : List (String × Entry) :=
  [(name, .object (fields.map fun f => (f.1, .token (.word f.2))))]

variable {name : String} {fields : List (String × List Char)}

/-- Nothing is white space. -/
theorem isSpace_nil : IsSpace [] := nofun

/-- A written string is a string. -/
theorem isString_literal (s : String) : IsString (Json.literal s) s := by
  have h := IsString.quoted (spells_escaped s.toList)
  rwa [String.ofList_toList] at h

/-- Words of integers are members. -/
theorem isMembers_words (hne : fields ≠ []) (hwords : ∀ f ∈ fields, (written? f.2).isSome) :
    IsMembers IsLiteral (wordsText fields) (fields.map fun f => (f.1, .token (.word f.2))) := by
  have hword : ∀ f ∈ fields, IsLiteral f.2 (.token (.word f.2)) := fun f hf => by
    obtain ⟨i, hi⟩ := Option.isSome_iff_exists.mp (hwords f hf)
    exact .token (.integer hi)
  induction fields with
  | nil => exact absurd rfl hne
  | cons f fields ih =>
    cases fields with
    | nil =>
      have h := IsMembers.last isSpace_nil (isString_literal f.1) isSpace_nil isSpace_nil
        (hword f List.mem_cons_self) isSpace_nil
      simpa only [wordsText, List.nil_append, List.append_nil, List.map_cons, List.map_nil] using h
    | cons g fields =>
      have hrest := ih (List.cons_ne_nil g fields)
        (fun f hf => hwords f (List.mem_cons_of_mem _ hf))
        fun f hf => hword f (List.mem_cons_of_mem _ hf)
      have h := IsMembers.cons isSpace_nil (isString_literal f.1) isSpace_nil isSpace_nil
        (hword f List.mem_cons_self) isSpace_nil hrest
      simpa only [wordsText, List.nil_append, List.map_cons] using h

/-- A section in compact form is a document. -/
theorem isDocument_section (hne : fields ≠ []) (hwords : ∀ f ∈ fields, (written? f.2).isSome)
    (hnodup : (fields.map Prod.fst).Nodup) :
    IsDocument (sectionText name fields) (sectionEntries name fields) := by
  have hmembers : IsObject IsLiteral ('\x7b' :: (wordsText fields ++ ['\x7d']))
      (fields.map fun f => (f.1, .token (.word f.2))) :=
    .members (isMembers_words hne hwords) (by rwa [List.map_map])
  have hentry : IsMembers IsEntry _ (sectionEntries name fields) :=
    .last isSpace_nil (isString_literal name) isSpace_nil isSpace_nil (.object hmembers) isSpace_nil
  have hobject := IsObject.members hentry (List.pairwise_singleton _ _)
  have h := IsDocument.object isSpace_nil hobject isSpace_nil
  unfold sectionText
  simpa only [List.nil_append, List.append_nil, List.append_assoc, List.cons_append] using h

/-- A section in compact form gives its words to its fields. -/
theorem document_section (name : String) (fields : List (String × List Char)) :
    document (sectionEntries name fields) =
      ⟨[[], [name]], fields.map fun f => ([name, f.1], .token (.word f.2))⟩ := by
  unfold document sectionEntries objectDocument
  simp only [List.flatMap_cons, List.flatMap_nil, List.append_nil]
  unfold Entry.document objectDocument Document.under Term.document
  simp [List.map_eq_flatMap, List.flatMap_assoc]

end Json

end MessageBroker
