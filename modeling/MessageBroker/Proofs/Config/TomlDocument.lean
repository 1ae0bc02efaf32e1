import MessageBroker.Proofs.Config.TomlReads
import MessageBroker.Proofs.Config.TomlTables

/-!
# TOML documents

A document is read line by line. Each line changes what has been built so far, or is refused
(`Row.apply`), and the parser gives what all lines together build, if none of them is refused and
all their words stand for values (`parse_of_isDocument`). What has been built holds what the lines
say (`holds_build`), so the entries that are read from a text hold what the text says
(`holds_of_parse`).
-/

namespace MessageBroker.Config.Toml

/-! ## Building -/

/-- What a line makes of a document, if it is not refused. -/
def Row.apply (origin : Option String) (draft : Parser.Draft) : Row → Option Parser.Draft
  | .nothing => some draft
  | .header way last =>
    (draft.nodes.within (Nodes.open? last) way).map fun nodes => ⟨nodes, way ++ [last]⟩
  | .entry names term =>
    (term.value? origin).bind fun v =>
      (draft.nodes.within (Nodes.assign v names) draft.header).map fun nodes =>
        ⟨nodes, draft.header⟩

/-- What lines make of a document, if none of them is refused. -/
def build (origin : Option String) (rows : List Row) (draft : Parser.Draft) :
    Option Parser.Draft :=
  rows.foldlM (fun draft row => row.apply origin draft) draft

/-- The first line is built before the others. -/
theorem build_cons (origin : Option String) (row : Row) (rows : List Row)
    (draft : Parser.Draft) :
    build origin (row :: rows) draft = (row.apply origin draft).bind (build origin rows) := by
  unfold build
  rw [List.foldlM_cons]
  rfl

/-! ## Lines -/

namespace Parser

variable {text rest : List Char} {fuel : Nat} {origin : Option String} {draft : Draft}

/-- A change that may be refused, behind which nothing more is taken. -/
theorem takes_settled (draft : Draft) (header : List String) (nodes : Option Nodes)
    (rest : List Char) :
    Takes (settled draft header nodes) [] rest (nodes.map fun nodes => ⟨nodes, header⟩) := by
  cases nodes with
  | none => exact takes_fail [] rest
  | some nodes => exact takes_pure _ rest

/-- The header of a table is taken, with blanks around its names. -/
theorem takes_header {b : List Char} {way : List String} {last : String} (hb : IsBlank b)
    (h : IsKey text (way ++ [last])) (rest : List Char) :
    Takes (header [']']) (b ++ (text ++ [']'])) rest (some (way, last)) := by
  rw [← List.append_assoc]
  have hkey : Takes key (b ++ text) ([']'] ++ rest) (some (way ++ [last])) :=
    takes_key h hb (stops_cons (by decide) rest)
  refine hkey.next ((takes_expect [']'] rest).last ?_)
  rw [List.reverse_append]
  show Takes (pure (way.reverse.reverse, last)) [] rest _
  rw [List.reverse_reverse]
  exact takes_pure _ rest

/-- A line is read as its content, behind blanks, and passed over to its end. -/
theorem takes_line_of_content {b after : List Char} {result : Option Draft} (hb : IsBlank b)
    (hstop : Stops isBlank (text ++ (after ++ rest)))
    (htext : Takes (content origin draft) text (after ++ rest) result)
    (hafter : Takes restOfLine after rest (some ())) :
    Takes (line origin draft) (b ++ (text ++ after)) rest result := by
  have hall : Takes (content origin draft >>= fun draft => restOfLine >>= fun _ => pure draft)
      (text ++ after) rest (result.bind some) :=
    htext.bind fun draft _ => hafter.last (takes_pure draft rest)
  have hresult : result.bind some = result := by cases result <;> rfl
  rw [hresult] at hall
  exact (takes_blanks hb (by rwa [List.append_assoc])).next hall

/-- A line without content leaves the document as it is. -/
theorem takes_content_nothing (hrest : Stops (fun c => !(c = '#' || c = '\n' || c = '\r')) rest) :
    Takes (content origin draft) [] rest (some draft) := by
  unfold content
  refine (takes_peek rest).look ?_
  cases rest with
  | nil => exact takes_pure draft []
  | cons c rest =>
    have hc : c = '#' ∨ c = '\n' ∨ c = '\r' := by
      have hc := hrest c rfl
      simp only [Bool.not_eq_false', Bool.or_eq_true, decide_eq_true_eq] at hc
      rwa [or_assoc] at hc
    rcases hc with rfl | rfl | rfl <;> exact takes_pure draft _

/-- The header of a line is read, and opens its table. -/
theorem takes_content_header {b : List Char} {way : List String} {last : String} (hb : IsBlank b)
    (h : IsKey text (way ++ [last])) (rest : List Char) :
    Takes (content origin draft) ('[' :: (b ++ (text ++ [']']))) rest
      ((Row.header way last).apply origin draft) := by
  have hnone : Takes (skip? ['[']) [] (b ++ (text ++ [']']) ++ rest) (some false) := by
    refine takes_skip_none (isPrefixOf_of_stops [] ?_)
    rw [List.append_assoc, List.append_assoc]
    refine Stops.append ?_ fun c hc => ?_
    · refine stops_key h _ fun c hc => decide_eq_false ?_
      rintro rfl
      exact absurd hc (by decide)
    · have hc : c = ' ' ∨ c = '\t' := by simpa [isBlank] using hb c (List.mem_of_mem_head? hc)
      rcases hc with rfl | rfl <;> decide
  unfold content
  refine (takes_peek ('[' :: (b ++ (text ++ [']'])) ++ rest)).look ?_
  refine (takes_pass ['['] (b ++ (text ++ [']']) ++ rest)).next (hnone.look ?_)
  exact (takes_header hb h rest).last (takes_settled draft (way ++ [last]) _ rest)

/-- The key of a line is read with its value, which is put into the open table. -/
theorem takes_content_entry {b s : List Char} {names : List String} {term : Term}
    (h : IsKey text names) (hb : IsBlank b) (hs : IsTerm s term) (hends : EndsToken rest) :
    Takes (content origin draft) (text ++ '=' :: (b ++ s)) rest
      ((Row.entry names term).apply origin draft) := by
  obtain ⟨c, tail, hfirst, hc⟩ := exists_of_isKey h
  have hhead : (text ++ '=' :: (b ++ s) ++ rest).head? = some c := by
    rw [hfirst]
    rfl
  have hne : ∀ d : Char, (isBare d || d = '"' || d = '\'') = false → c ≠ d := by
    rintro d hd rfl
    simp only [Bool.or_eq_false_iff, decide_eq_false_iff_not] at hd
    rcases hc with hc | hc | hc
    · rw [hd.1.1] at hc
      cases hc
    · exact hd.1.2 hc
    · exact hd.2 hc
  have hkey : Takes key ([] ++ text) ('=' :: (b ++ s) ++ rest) (some names) :=
    takes_key h nofun (stops_cons (by decide) _)
  have hblanks : Takes blanks b (s ++ rest) (some ()) := by
    obtain ⟨x, more, hx, hblank⟩ := exists_of_isTerm hs
    refine takes_blanks hb ?_
    rw [hx]
    exact stops_cons hblank _
  -- The value is the last that is read, so its failure is the failure of the line.
  have hvalue : Takes (do
      let found ← value origin ((← unread).length + 1)
      settled draft draft.header (draft.nodes.within (Nodes.assign found names) draft.header))
      s rest ((Row.entry names term).apply origin draft) := by
    refine (takes_unread _).look ?_
    have hterm : Takes (value origin ((s ++ rest).length + 1)) s rest (term.value? origin) :=
      takes_term hs hends (by simp only [List.length_append]; omega)
    exact hterm.bindLast fun v _ => takes_settled draft draft.header _ rest
  unfold content
  refine (takes_peek _).look ?_
  rw [hhead]
  split
  · exact absurd (Option.some.inj ‹_›) (hne '[' (by decide))
  · exact absurd (Option.some.inj ‹_›) (hne '#' (by decide))
  · exact absurd (Option.some.inj ‹_›) (hne '\n' (by decide))
  · exact absurd (Option.some.inj ‹_›) (hne '\r' (by decide))
  · cases ‹_›
  · exact hkey.next ((takes_expect ['='] _).next (hblanks.next hvalue))

/-- A line is read as its row, up to its end. -/
theorem takes_line {row : Row} {e : List Char} (h : IsRow text row) (he : Ends e rest) :
    Takes (line origin draft) (text ++ e) rest (row.apply origin draft) := by
  cases h with
  | @nothing b c hb hc =>
    have hafter : Takes restOfLine ([] ++ (c ++ e)) rest (some ()) := takes_restOfLine nofun hc he
    have hcontent : Takes (content origin draft) [] (c ++ e ++ rest) (some draft) :=
      takes_content_nothing (by rw [List.append_assoc]; exact he.stops hc rfl rfl rfl)
    have hstop : Stops isBlank ([] ++ (c ++ e ++ rest)) := by
      rw [List.nil_append, List.append_assoc]
      exact he.stops hc rfl rfl rfl
    have hall := takes_line_of_content hb hstop hcontent hafter
    rw [List.append_assoc]
    exact hall
  | @header b b' k b'' c way last hb hb' hk hb'' hc =>
    have hafter : Takes restOfLine (b'' ++ (c ++ e)) rest (some ()) := takes_restOfLine hb'' hc he
    have hcontent : Takes (content origin draft) ('[' :: (b' ++ (k ++ [']'])))
        (b'' ++ (c ++ e) ++ rest) ((Row.header way last).apply origin draft) :=
      takes_content_header hb' hk _
    have htext : b ++ '[' :: (b' ++ (k ++ ']' :: (b'' ++ c))) ++ e =
        b ++ ('[' :: (b' ++ (k ++ [']'])) ++ (b'' ++ (c ++ e))) := by
      simp only [List.append_assoc, List.cons_append, List.nil_append]
    rw [htext]
    exact takes_line_of_content hb (stops_cons rfl _) hcontent hafter
  | @entry b k b' s b'' c names term hb hk hb' hs hb'' hc =>
    have hafter : Takes restOfLine (b'' ++ (c ++ e)) rest (some ()) := takes_restOfLine hb'' hc he
    have hcontent : Takes (content origin draft) (k ++ '=' :: (b' ++ s))
        (b'' ++ (c ++ e) ++ rest) ((Row.entry names term).apply origin draft) := by
      refine takes_content_entry hk hb' hs ?_
      rw [List.append_assoc, List.append_assoc]
      exact endsToken_of_ends hb'' hc he
    have htext : b ++ (k ++ '=' :: (b' ++ (s ++ (b'' ++ c)))) ++ e =
        b ++ (k ++ '=' :: (b' ++ s) ++ (b'' ++ (c ++ e))) := by
      simp only [List.append_assoc, List.cons_append]
    rw [htext]
    refine takes_line_of_content hb ?_ hcontent hafter
    rw [List.append_assoc]
    exact stops_key hk _ fun c => not_isBlank_of_bare

/-- A line is read before the others. -/
theorem takes_lines_cons {more : List Char} {result : Option Draft} {next : Draft → Option Draft}
    (hne : text ≠ []) (hline : Takes (line origin draft) text (more ++ []) result)
    (hmore : ∀ draft, Takes (lines origin fuel draft) more [] (next draft)) :
    Takes (lines origin (fuel + 1) draft) (text ++ more) [] (result.bind next) := by
  obtain ⟨c, tail, rfl⟩ := List.exists_cons_of_ne_nil hne
  rw [lines]
  refine (takes_peek (c :: tail ++ more ++ [])).look ?_
  have hsome : ¬ Option.isNone (c :: tail ++ more ++ []).head? = true := Bool.false_ne_true
  rw [if_neg hsome]
  exact hline.bind fun draft _ => hmore draft

/-- The end of a text is the end of its lines. -/
theorem takes_lines_nil (draft : Draft) :
    Takes (lines origin (fuel + 1) draft) [] [] (some draft) := by
  rw [lines]
  refine (takes_peek []).look ?_
  rw [if_pos (show Option.isNone ([] : List Char).head? = true from rfl)]
  exact takes_pure draft []

/-- The lines of a document are read as its rows, up to its end. -/
theorem takes_lines {rows : List Row} (h : IsDocument text rows) (hfuel : text.length < fuel) :
    Takes (lines origin fuel draft) text [] (build origin rows draft) := by
  induction h generalizing fuel draft with
  | nil =>
    obtain ⟨fuel, rfl⟩ : ∃ n, fuel = n + 1 := ⟨fuel - 1, by omega⟩
    exact takes_lines_nil draft
  | @last s row hne hs =>
    have hpos := List.length_pos_of_ne_nil hne
    obtain ⟨fuel, rfl⟩ : ∃ n, fuel = n + 2 := ⟨fuel - 2, by omega⟩
    have hline : Takes (line origin draft) (s ++ []) ([] ++ []) (row.apply origin draft) :=
      takes_line hs (.inr ⟨rfl, rfl⟩)
    rw [List.append_nil] at hline
    rw [build_cons, ← List.append_nil s]
    exact takes_lines_cons hne hline takes_lines_nil
  | @cons s e more row rows hs he hmore ih =>
    obtain ⟨fuel, rfl⟩ : ∃ n, fuel = n + 1 := ⟨fuel - 1, by omega⟩
    have hpos : 1 ≤ e.length := by cases he <;> simp
    simp only [List.length_append] at hfuel
    have hne : s ++ e ≠ [] := List.ne_nil_of_length_pos (by rw [List.length_append]; omega)
    rw [build_cons, ← List.append_assoc]
    exact takes_lines_cons hne (takes_line hs (.inl he)) fun draft => ih (by omega)

end Parser

/-- A document does not begin with a byte order mark. -/
theorem stops_of_isDocument {text : List Char} {rows : List Row} (h : IsDocument text rows) :
    Parser.Stops (· = '\ufeff') text := by
  have hnil : Parser.Stops (· = '\ufeff') [] := by rintro _ ⟨⟩
  have hblank : ∀ b : List Char, IsBlank b → Parser.Stops (· = '\ufeff') b := fun b hb c hc => by
    have hc : c = ' ' ∨ c = '\t' := by simpa [isBlank] using hb c (List.mem_of_mem_head? hc)
    rcases hc with rfl | rfl <;> decide
  have hrow : ∀ {s : List Char} {row : Row}, IsRow s row → Parser.Stops (· = '\ufeff') s := by
    intro s row hs
    cases hs with
    | nothing hb hc =>
      refine Parser.Stops.append ?_ (hblank _ hb)
      cases hc with
      | nothing => exact hnil
      | comment => exact Parser.stops_cons (by decide) _
    | header hb => exact (Parser.stops_cons (by decide) _).append (hblank _ hb)
    | entry hb hk =>
      refine Parser.Stops.append (Parser.stops_key hk _ fun c hc => decide_eq_false ?_)
        (hblank _ hb)
      rintro rfl
      exact absurd hc (by decide)
  cases h with
  | nil => exact hnil
  | last hne hs => exact hrow hs
  | cons hs he =>
    refine Parser.Stops.append ?_ (hrow hs)
    cases he <;> exact Parser.stops_cons (by decide) _

/-- A document is read as what its lines build. -/
theorem parse_of_isDocument {text : List Char} {rows : List Row} (h : IsDocument text rows)
    (origin : Option String) :
    parse origin text =
      (build origin rows ⟨[], []⟩).map fun draft => nodesToEntries origin draft.nodes := by
  have hlines : Parser.Takes (Parser.lines origin (text.length + 1) ⟨[], []⟩) text [] _ :=
    Parser.takes_lines h (Nat.lt_succ_self _)
  have hrun : StateT.run (Parser.lines origin (text.length + 1) ⟨[], []⟩) text =
      (build origin rows ⟨[], []⟩).map fun draft => (draft, []) := by
    have happend := hlines
    unfold Parser.Takes at happend
    rwa [List.append_nil] at happend
  unfold parse
  -- No byte order mark is taken off.
  split
  · rename_i rest
    cases stops_of_isDocument h '\ufeff' rfl
  · dsimp only
    rw [hrun, Option.map_map]
    rfl

/-! ## What a document says -/

/-- What a line says below an open header. -/
def Row.document (header : List String) : Row → Document
  | .nothing => ⟨[], []⟩
  | .header way last => Document.root.under (way ++ [last])
  | .entry names term => term.document.under (header ++ names)

/-- The header that is open behind a line. -/
def Row.next (header : List String) : Row → List String
  | .nothing | .entry _ _ => header
  | .header way last => way ++ [last]

/-- What lines say below an open header. -/
def documentBelow (header : List String) : List Row → Document
  | [] => ⟨[], []⟩
  | row :: rows => (row.document header).append (documentBelow (row.next header) rows)

/-- What the lines of a document say. -/
def document (rows : List Row) : Document := Document.root.append (documentBelow [] rows)

section

variable {origin : Option String} {nodes nodes' : Nodes} {doc : Document}

/-- A value that nodes were assigned is held besides the rest. -/
theorem holds_assign {new : Document} {v : Value} {names header : List String}
    (hsound : nodes.Sound origin) (hdoc : (nodes.toValue origin).Holds .toml origin doc)
    (hv : v.Holds .toml origin new)
    (hassign : nodes.within (Nodes.assign v names) header = some nodes') :
    nodes'.Sound origin ∧
      (nodes'.toValue origin).Holds .toml origin (doc.append (new.under (header ++ names))) := by
  have hsound' : nodes'.Sound origin :=
    Nodes.sound_within hsound (fun _ _ h => Nodes.sound_assign h hv.increasing) hassign
  have hgrows : Value.Grows (header ++ names) (fun q => v.at? q) (nodes.toValue origin)
      (nodes'.toValue origin) :=
    Nodes.within_grows hsound (fun _ _ => Nodes.assign_grows) hassign
  refine ⟨hsound', hdoc.grow hgrows hv.given (fun q hq => hv.within q ?_) hv.leaf
    fun p w => hsound'.increasing⟩
  rcases hq with rfl | hq
  · exact Option.some_ne_none v
  · exact hq

/-- The members of a table in braces are held by what they build. -/
theorem holds_assignAll {members : List (List String × Literal)} (hsound : nodes.Sound origin)
    (hdoc : (nodes.toValue origin).Holds .toml origin doc)
    (hassign : assignAll origin members nodes = some nodes') :
    nodes'.Sound origin ∧
      (nodes'.toValue origin).Holds .toml origin (doc.append ⟨[], members⟩) := by
  induction members generalizing nodes doc with
  | nil =>
    cases hassign
    rw [Document.append_nil]
    exact ⟨hsound, hdoc⟩
  | cons m members ih =>
    rw [assignAll_cons] at hassign
    obtain ⟨v, hv, hassign⟩ := Option.bind_eq_some_iff.mp hassign
    obtain ⟨inner, hinner, hassign⟩ := Option.bind_eq_some_iff.mp hassign
    -- Within braces, a key starts at the table itself, under no header.
    obtain ⟨hsound', hdoc'⟩ := holds_assign hsound hdoc (Value.holds_literal hv)
      (show nodes.within (Nodes.assign v m.1) [] = some inner from hinner)
    have hall := ih hsound' hdoc' hassign
    rw [Document.append_assoc] at hall
    have hmembers : ((Term.literal m.2).document.under ([] ++ m.1)).append ⟨[], members⟩ =
        ⟨[], m :: members⟩ := by
      unfold Document.append Document.under Term.document
      simp only [List.nil_append, List.map_nil, List.map_cons, List.append_nil, List.cons_append]
    rwa [hmembers] at hall

/-- An empty table holds nothing. -/
theorem holds_nil (origin : Option String) :
    (Nodes.toValue origin []).Holds .toml origin Document.root where
  given := nofun
  within path hpath := by
    cases path with
    | nil => exact ⟨[], List.mem_singleton_self _, List.prefix_refl _⟩
    | cons name path => exact absurd rfl hpath
  leaf path w hw := by
    cases path with
    | nil =>
      obtain rfl := Option.some.inj hw
      exact .inl ⟨_, _, rfl⟩
    | cons name path => cases hw
  increasing path w hw := Nodes.sound_nil.increasing hw

/-- The value of a term holds what the term says. -/
theorem holds_term {term : Term} {v : Value} (h : term.value? origin = some v) :
    v.Holds .toml origin term.document := by
  cases term with
  | literal l => exact Value.holds_literal h
  | table members =>
    obtain ⟨nodes, hnodes, rfl⟩ := Option.map_eq_some_iff.mp
      (show (assignAll origin members []).map (fun nodes =>
        Value.table origin (nodesToEntries origin nodes)) = _ from h)
    exact (holds_assignAll Nodes.sound_nil (holds_nil origin) hnodes).2

/-- What has been built behind a line holds besides what the line says. -/
theorem holds_apply {row : Row} {draft draft' : Parser.Draft} (hsound : draft.nodes.Sound origin)
    (hdoc : (draft.nodes.toValue origin).Holds .toml origin doc)
    (happly : row.apply origin draft = some draft') :
    draft'.nodes.Sound origin ∧ draft'.header = row.next draft.header ∧
      (draft'.nodes.toValue origin).Holds .toml origin
        (doc.append (row.document draft.header)) := by
  cases row with
  | nothing =>
    cases happly
    refine ⟨hsound, rfl, ?_⟩
    rwa [Row.document, Document.append_nil]
  | header way last =>
    obtain ⟨nodes, hopen, rfl⟩ := Option.map_eq_some_iff.mp
      (show (draft.nodes.within (Nodes.open? last) way).map _ = _ from happly)
    have hsound' : Nodes.Sound origin nodes :=
      Nodes.sound_within hsound (fun _ _ h => Nodes.sound_open h) hopen
    have hgrows : Value.Grows (way ++ [last]) (fun _ => none) (draft.nodes.toValue origin)
        (nodes.toValue origin) :=
      Nodes.within_grows hsound (fun _ _ => Nodes.open_grows) hopen
    refine ⟨hsound', rfl, hdoc.grow hgrows nofun (fun q hq => ?_) nofun fun p w =>
      hsound'.increasing⟩
    rcases hq with rfl | hq
    · exact ⟨[], List.mem_singleton_self _, List.prefix_refl _⟩
    · exact absurd rfl hq
  | entry names term =>
    obtain ⟨v, hv, happly⟩ := Option.bind_eq_some_iff.mp
      (show (term.value? origin).bind _ = _ from happly)
    obtain ⟨nodes, hassign, rfl⟩ := Option.map_eq_some_iff.mp happly
    obtain ⟨hsound', hdoc'⟩ := holds_assign hsound hdoc (holds_term hv) hassign
    exact ⟨hsound', rfl, hdoc'⟩

/-- What lines have built holds what they say. -/
theorem holds_build {rows : List Row} {draft draft' : Parser.Draft}
    (hsound : draft.nodes.Sound origin)
    (hdoc : (draft.nodes.toValue origin).Holds .toml origin doc)
    (hbuild : build origin rows draft = some draft') :
    (draft'.nodes.toValue origin).Holds .toml origin
      (doc.append (documentBelow draft.header rows)) := by
  induction rows generalizing draft doc with
  | nil =>
    cases hbuild
    rwa [documentBelow, Document.append_nil]
  | cons row rows ih =>
    rw [build_cons] at hbuild
    obtain ⟨next, happly, hbuild⟩ := Option.bind_eq_some_iff.mp hbuild
    obtain ⟨hsound', hheader, hdoc'⟩ := holds_apply hsound hdoc happly
    have hall := ih hsound' hdoc' hbuild
    rwa [hheader, Document.append_assoc] at hall

/-- The entries that are read from a document hold what it says. -/
theorem holds_of_parse {text : List Char} {rows : List Row} (h : IsDocument text rows)
    {entries : List (String × Value)} (hparse : parse origin text = some entries) :
    (Value.table origin entries).Holds .toml origin (document rows) := by
  rw [parse_of_isDocument h] at hparse
  obtain ⟨draft, hbuild, rfl⟩ := Option.map_eq_some_iff.mp hparse
  have hsound : (⟨[], []⟩ : Parser.Draft).nodes.Sound origin := Nodes.sound_nil
  exact holds_build hsound (holds_nil origin) hbuild

end

end MessageBroker.Config.Toml
