import MessageBroker.Proofs.Config.TomlStrings

/-!
# Written TOML is read

The parser takes what the grammar of TOML writes: names and keys (`takes_key`), tokens and literals
(`takes_literal`), and tables in braces (`takes_term`). The value of a word may be missing,
when it is an integer too large for 64 bits or no value at all, and then the parser fails there.

Fuel of one step more than there are characters is always enough, which is what the parser gives
itself.
-/

namespace MessageBroker.Config

namespace Toml

/-- The nodes of members that are assigned one after the other. -/
def assignAll (origin : Option String) (members : List (List String × Literal)) (nodes : Nodes) :
    Option Nodes :=
  members.foldlM (fun nodes m => (m.2.value? .toml origin).bind fun v => nodes.assign v m.1) nodes

/-- The first member is assigned before the others. -/
theorem assignAll_cons (origin : Option String) (m : List String × Literal)
    (members : List (List String × Literal)) (nodes : Nodes) :
    assignAll origin (m :: members) nodes =
      (m.2.value? .toml origin).bind fun v =>
        (nodes.assign v m.1).bind (assignAll origin members) := by
  unfold assignAll
  rw [List.foldlM_cons]
  exact Option.bind_assoc _ _ _

end Toml

/-- The value of a term of TOML, if all its tokens stand for values and its keys for members. -/
def Term.value? (origin : Option String) : Term → Option Value
  | .literal l => l.value? .toml origin
  | .table members =>
    (Toml.assignAll origin members []).map fun nodes =>
      .table origin (Toml.nodesToEntries origin nodes)

namespace Toml

namespace Parser

variable {text rest : List Char} {fuel : Nat} {origin : Option String}

/-! ## Names and keys -/

/-- A bare name does not begin with a quote. -/
theorem isBare_ne_quote {c : Char} (h : isBare c = true) : c ≠ '"' ∧ c ≠ '\'' := by
  constructor <;> (rintro rfl; exact absurd h (by decide))

/-- A name is taken. -/
theorem takes_name {value : String} (h : IsName text value) (hrest : Stops isBare rest) :
    Takes name text rest (some value) := by
  cases h with
  | bare hne hs =>
    obtain ⟨c, tail, rfl⟩ := List.exists_cons_of_ne_nil hne
    obtain ⟨hdouble, hsingle⟩ := isBare_ne_quote (hs c List.mem_cons_self)
    refine (takes_peek (c :: tail ++ rest)).look ?_
    rw [List.cons_append, List.head?_cons]
    split
    · exact absurd (Option.some.inj ‹_›) hdouble
    · exact absurd (Option.some.inj ‹_›) hsingle
    · exact (takes_run hs hrest).last (takes_pure _ rest)
  | quoted hs =>
    obtain ⟨quote, body, rfl, hquote, hbody⟩ := takes_oneLine hs rest
    have hmapped := hbody.map String.ofList
    refine (takes_peek (quote :: body ++ rest)).look ?_
    rcases hquote with rfl | rfl
    · exact (takes_pass ['"'] (body ++ rest)).next hmapped
    · exact (takes_pass ['\''] (body ++ rest)).next hmapped

/-- A character that a key may go on with. -/
def isKeyChar (c : Char) : Bool := isBlank c || isBare c || c = '.'

/-- A name has characters, and none that passes for a blank comes first. -/
theorem exists_of_isName {value : String} (h : IsName text value) :
    ∃ c tail, text = c :: tail ∧ (isBare c = true ∨ c = '"' ∨ c = '\'') := by
  cases h with
  | bare hne hs =>
    obtain ⟨c, tail, rfl⟩ := List.exists_cons_of_ne_nil hne
    exact ⟨c, tail, rfl, .inl (hs c List.mem_cons_self)⟩
  | quoted hs =>
    cases hs with
    | basic => exact ⟨'"', _, rfl, .inr (.inl rfl)⟩
    | literal => exact ⟨'\'', _, rfl, .inr (.inr rfl)⟩

/-- The first character of a key is that of a name. -/
theorem exists_of_isKey {values : List String} (h : IsKey text values) :
    ∃ c tail, text = c :: tail ∧ (isBare c = true ∨ c = '"' ∨ c = '\'') := by
  cases h with
  | last hs =>
    obtain ⟨c, tail, rfl, hc⟩ := exists_of_isName hs
    exact ⟨c, _, rfl, hc⟩
  | cons hs =>
    obtain ⟨c, tail, rfl, hc⟩ := exists_of_isName hs
    exact ⟨c, _, rfl, hc⟩

/-- What a key begins with is not passed over, and opens no header. -/
theorem stops_key {values : List String} (h : IsKey text values) (rest : List Char)
    {test : Char → Bool} (htest : ∀ c, isBare c = true ∨ c = '"' ∨ c = '\'' → test c = false) :
    Stops test (text ++ rest) := by
  obtain ⟨c, tail, rfl, hc⟩ := exists_of_isKey h
  exact stops_cons (htest c hc) _

/-- Blanks are not what a name begins with. -/
theorem not_isBlank_of_bare {c : Char} (h : isBare c = true ∨ c = '"' ∨ c = '\'') :
    isBlank c = false := by
  cases hblank : isBlank c with
  | false => rfl
  | true =>
    have hc : c = ' ' ∨ c = '\t' := by simpa [isBlank] using hblank
    rcases hc with rfl | rfl <;> exact absurd h (by decide)

/-- Names joined by points are taken, with blanks before the first of them. -/
theorem takes_names {b : List Char} {values : List String} (h : IsKey text values)
    (hb : IsBlank b) (hrest : Stops isKeyChar rest) (hfuel : text.length < fuel) :
    Takes (names fuel) (b ++ text) rest (some values) := by
  -- A bare name ends where blanks begin.
  have hbare : ∀ {b more : List Char}, IsBlank b → Stops isBare more →
      Stops isBare (b ++ more) := by
    intro b more hb hmore
    refine hmore.append fun c hc => ?_
    have hblank : c = ' ' ∨ c = '\t' := by
      simpa [isBlank] using hb c (List.mem_of_mem_head? hc)
    rcases hblank with rfl | rfl <;> decide
  induction h generalizing fuel b with
  | @last s b' value hs hb' =>
    obtain ⟨fuel, rfl⟩ : ∃ n, fuel = n + 1 := ⟨fuel - 1, by omega⟩
    have hfirst : Stops isBlank (s ++ b' ++ rest) :=
      stops_key (.last hs hb') rest fun c => not_isBlank_of_bare
    have hname : Stops isBare (b' ++ rest) :=
      hbare hb' (hrest.imp fun c hc => by simp [isKeyChar, hc])
    have hblanks : Takes blanks b' rest (some ()) :=
      takes_blanks hb' (hrest.imp fun c hc => by simp [isKeyChar, hc])
    have hnone : Takes (skip? ['.']) [] ([] ++ rest) (some false) :=
      takes_skip_none (isPrefixOf_of_stops [] (hrest.imp fun c hc => by simp_all [isKeyChar]))
    rw [names]
    refine (takes_blanks hb hfirst).next ((takes_name hs hname).next ?_)
    exact hblanks.last (hnone.look (takes_pure [value] rest))
  | @cons s b' b'' more value values hs hb' hb'' hmore ih =>
    obtain ⟨fuel, rfl⟩ : ∃ n, fuel = n + 1 := ⟨fuel - 1, by omega⟩
    have hfirst : Stops isBlank (s ++ (b' ++ '.' :: (b'' ++ more)) ++ rest) :=
      stops_key (.cons hs hb' hb'' hmore) rest fun c => not_isBlank_of_bare
    have hlen : more.length < fuel := by
      simp only [List.length_append, List.length_cons] at hfuel
      omega
    have hpoint : Stops isBare (b' ++ ('.' :: (b'' ++ more)) ++ rest) := by
      rw [List.append_assoc]
      exact hbare hb' (stops_cons (by decide) _)
    have hblanks : Takes blanks b' ('.' :: (b'' ++ more) ++ rest) (some ()) :=
      takes_blanks hb' (stops_cons rfl _)
    rw [names]
    refine (takes_blanks hb hfirst).next ((takes_name hs hpoint).next (hblanks.next ?_))
    refine (takes_skip ['.'] (b'' ++ more ++ rest)).next ?_
    exact (ih hb'' hlen).last (takes_pure (value :: values) rest)

/-- A key is taken, with blanks before it. -/
theorem takes_key {b : List Char} {values : List String} (h : IsKey text values) (hb : IsBlank b)
    (hrest : Stops isKeyChar rest) : Takes key (b ++ text) rest (some values) :=
  (takes_unread _).look (takes_names h hb hrest (by simp only [List.length_append]; omega))

/-! ## Values -/

/-- A character that does not end a word or a string. -/
def isWordy (c : Char) : Bool := isAtomChar c || c = '"' || c = '\''

/-- A word ends here, and behind a single blank nothing goes on that could belong to it. -/
structure EndsToken (rest : List Char) : Prop where
  now : Stops isWordy rest
  later : ∀ tail, rest = ' ' :: tail → Stops isWordy tail

/-- Blanks end a token if what stands behind them does. -/
theorem endsToken_of_blank {b : List Char} (hb : IsBlank b)
    (hrest : Stops (fun c => isWordy c || isBlank c) rest) : EndsToken (b ++ rest) := by
  have hwordy : Stops isWordy rest := hrest.imp fun c hc => by simp [hc]
  have hblank : ∀ b : List Char, IsBlank b → Stops isWordy (b ++ rest) := by
    intro b hb
    refine hwordy.append fun c hc => ?_
    have hc : c = ' ' ∨ c = '\t' := by simpa [isBlank] using hb c (List.mem_of_mem_head? hc)
    rcases hc with rfl | rfl <;> decide
  refine ⟨hblank b hb, fun tail htail => ?_⟩
  cases b with
  | nil =>
    obtain rfl : rest = ' ' :: tail := htail
    have hspace := hrest ' ' rfl
    cases hspace
  | cons c b =>
    obtain ⟨-, rfl⟩ := List.cons.inj htail
    exact hblank b fun x hx => hb x (List.mem_cons_of_mem _ hx)

/-- The rest of a line ends a token. -/
theorem endsToken_of_ends {b c e : List Char} (hb : IsBlank b) (hc : IsComment c)
    (he : Ends e rest) : EndsToken (b ++ (c ++ (e ++ rest))) :=
  endsToken_of_blank hb (he.stops hc rfl rfl rfl)

/-- A gap in front of a comma or a bracket ends a token. -/
theorem endsToken_of_gap {g : List Char} (hg : IsGap g) {c : Char}
    (hc : c ∈ [',', ']', '\x7d']) (rest : List Char) : EndsToken (g ++ c :: rest) := by
  cases hg with
  | blank hb =>
    refine endsToken_of_blank hb (stops_cons ?_ rest)
    simp only [List.mem_cons, List.not_mem_nil, or_false] at hc
    rcases hc with rfl | rfl | rfl <;> decide
  | @line b d e g hb hd he hg =>
    simp only [List.append_assoc]
    exact endsToken_of_ends hb hd (.inl he)

/-- A token is read as the scalar that it stands for. -/
theorem takes_token {t : Token} (h : IsToken text t) (hrest : EndsToken rest) :
    Takes (value origin (fuel + 1)) text rest ((t.scalar? .toml).map (.scalar origin)) := by
  cases h with
  | word hne hs =>
    obtain ⟨c, tail, rfl⟩ := List.exists_cons_of_ne_nil hne
    have hstop : Stops isAtomChar rest := hrest.now.imp fun c hc => by simp [isWordy, hc]
    -- Behind a date, the parser also looks past one blank for a time.
    have hatom := atom_of_word hs hstop
      (.inr fun tail htail => (hrest.later tail htail).imp fun c hc => by
        simp [isWordy, isAtomChar, Char.isAlphanum, hc])
    unfold Takes
    rw [List.cons_append] at hatom ⊢
    rw [value_of_atom (hs c List.mem_cons_self), hatom]
    show _ = ((atom? (c :: tail)).map _).map _
    cases atom? (c :: tail) <;> rfl
  | text hs =>
    have hquote : Stops (fun c => c = '"' || c = '\'') rest :=
      hrest.now.imp fun c hc => by
        rcases (Bool.or_eq_true _ _).mp hc with hc | hc <;> simp_all [isWordy]
    have hstring := takes_text hs hquote
    obtain ⟨quote, body, rfl, hquote⟩ := exists_of_isText hs
    rw [value]
    refine (takes_peek (quote :: body ++ rest)).look ?_
    rcases hquote with rfl | rfl <;> exact hstring.last (takes_pure _ rest)

/-- The first character of a token is neither passed over nor a bracket. -/
theorem exists_of_isToken {t : Token} (h : IsToken text t) :
    ∃ c tail, text = c :: tail ∧ isWordy c = true := by
  cases h with
  | word hne hs =>
    obtain ⟨c, tail, rfl⟩ := List.exists_cons_of_ne_nil hne
    exact ⟨c, tail, rfl, by simp [isWordy, hs c List.mem_cons_self]⟩
  | text hs =>
    obtain ⟨quote, body, rfl, hquote⟩ := exists_of_isText hs
    rcases hquote with rfl | rfl <;> exact ⟨_, body, rfl, by decide⟩

/-- What a wordy character is not. -/
theorem isSolid_of_isWordy {c : Char} (h : isWordy c = true) :
    (!isSolid c) = false ∧ c ≠ ']' ∧ c ≠ '\x7d' := by
  have hne : ∀ d : Char, isWordy d = false → c ≠ d := by
    rintro d hd rfl
    rw [hd] at h
    cases h
  have hsolid : isSolid c = true := by
    simp [isSolid, isBlank, hne ' ' (by decide), hne '\t' (by decide), hne '#' (by decide),
      hne '\n' (by decide), hne '\r' (by decide)]
  exact ⟨by simp [hsolid], hne ']' (by decide), hne '\x7d' (by decide)⟩

/-- A gap is passed over, up to a character that is not part of one. -/
theorem takes_gapped {α : Type} {p : Parser α} {g : List Char} {result : Option α}
    (hg : IsGap g) (hstop : Stops (!isSolid ·) (text ++ rest)) (hp : Takes p text rest result) :
    Takes (do gap ((← unread).length + 1); p) (g ++ text) rest result :=
  (takes_unread _).look
    ((takes_gap hg hstop (by simp only [List.length_append]; omega)).next hp)

/-- An item of a list is read alike, whatever stands behind it. -/
theorem takes_item {g s more : List Char} {t : Token} {p : Value → Parser (List Value)}
    {result : Value → Option (List Value)} (hg : IsGap g) (hs : IsToken s t)
    (hends : EndsToken (more ++ rest)) (hp : ∀ v, Takes (p v) more rest (result v)) :
    Takes (do
      gap ((← unread).length + 1)
      if ← skip? [']'] then return []
      p (← value origin (fuel + 1))) (g ++ (s ++ more)) rest
      (((t.scalar? .toml).map (Value.scalar origin)).bind result) := by
  obtain ⟨c, tail, hfirst, hc⟩ := exists_of_isToken hs
  obtain ⟨hsolid, hbracket, -⟩ := isSolid_of_isWordy hc
  have hstop : ∀ {test : Char → Bool}, test c = false → Stops test (s ++ more ++ rest) := by
    intro test htest
    rw [hfirst]
    exact stops_cons htest _
  -- A token does not look like the end of the list.
  have hnone : Takes (skip? [']']) [] (s ++ more ++ rest) (some false) :=
    takes_skip_none (isPrefixOf_of_stops [] (hstop (decide_eq_false hbracket)))
  refine takes_gapped hg (hstop hsolid) (hnone.look ?_)
  exact (takes_token hs hends).bind fun v _ => hp v

/-- Items are read up to the bracket that closes their list. -/
theorem takes_items {ts : List Token} (h : IsItems text ts) (hfuel : text.length + 2 ≤ fuel) :
    Takes (items origin fuel) (text ++ [']']) rest
      ((ts.mapM (Token.scalar? .toml)).map fun xs => xs.map (.scalar origin)) := by
  induction h generalizing fuel with
  | @nil g hg =>
    obtain ⟨fuel, rfl⟩ : ∃ n, fuel = n + 1 := ⟨fuel - 1, by omega⟩
    rw [items]
    refine takes_gapped hg (stops_cons (by decide) rest) ?_
    exact (takes_skip [']'] rest).last (takes_pure [] rest)
  | @last g s g' t hg hs hg' =>
    obtain ⟨fuel, rfl⟩ : ∃ n, fuel = n + 2 := ⟨fuel - 2, by omega⟩
    have hends : EndsToken (g' ++ [']'] ++ rest) := by
      rw [List.append_assoc]
      exact endsToken_of_gap hg' (by simp) rest
    have hcomma : Takes (skip? [',']) [] ([']'] ++ rest) (some false) :=
      takes_skip_none (isPrefixOf_of_stops [] (stops_cons (by decide) rest))
    have hclose : ∀ v : Value, Takes (do
        gap ((← unread).length + 1)
        if ← skip? [','] then return v :: (← items origin (fuel + 1))
        expect [']']
        return [v]) (g' ++ [']']) rest (some [v]) := fun v =>
      takes_gapped hg' (stops_cons (by decide) rest)
        (hcomma.look ((takes_expect [']'] rest).last (takes_pure [v] rest)))
    have hresult : (([t].mapM (Token.scalar? .toml)).map fun xs => xs.map (Value.scalar origin)) =
        ((t.scalar? .toml).map (Value.scalar origin)).bind fun v => some [v] := by
      rw [List.mapM_cons]
      cases t.scalar? .toml <;> rfl
    rw [items, hresult, List.append_assoc, List.append_assoc]
    exact takes_item hg hs hends hclose
  | @cons g s g' more t ts hg hs hg' hmore ih =>
    obtain ⟨fuel, rfl⟩ : ∃ n, fuel = n + 2 := ⟨fuel - 2, by omega⟩
    have hlen : more.length + 2 ≤ fuel + 1 := by
      simp only [List.length_append, List.length_cons] at hfuel
      omega
    have hends : EndsToken (g' ++ ',' :: (more ++ [']']) ++ rest) := by
      rw [List.append_assoc]
      exact endsToken_of_gap hg' (by simp) _
    have hclose : ∀ v : Value, Takes (do
        gap ((← unread).length + 1)
        if ← skip? [','] then return v :: (← items origin (fuel + 1))
        expect [']']
        return [v]) (g' ++ ',' :: (more ++ [']'])) rest
          (((ts.mapM (Token.scalar? .toml)).map fun xs => xs.map (Value.scalar origin)).bind
            fun vs => some (v :: vs)) := fun v =>
      takes_gapped hg' (stops_cons (by decide) _) ((takes_skip [','] (more ++ [']'] ++ rest)).next
        ((ih hlen).bindLast fun vs _ => takes_pure (v :: vs) rest))
    have hresult : (((t :: ts).mapM (Token.scalar? .toml)).map fun xs =>
          xs.map (Value.scalar origin)) =
        ((t.scalar? .toml).map (Value.scalar origin)).bind fun v =>
          ((ts.mapM (Token.scalar? .toml)).map fun xs => xs.map (Value.scalar origin)).bind
            fun vs => some (v :: vs) := by
      rw [List.mapM_cons]
      cases t.scalar? .toml with
      | none => rfl
      | some x => cases ts.mapM (Token.scalar? .toml) <;> rfl
    rw [items, hresult, List.append_assoc, List.append_assoc, List.append_assoc, List.cons_append]
    exact takes_item hg hs hends hclose

/-- A literal is read as the value that it stands for. -/
theorem takes_literal {l : Literal} (h : IsLiteral text l) (hrest : EndsToken rest)
    (hfuel : text.length + 1 ≤ fuel) :
    Takes (value origin fuel) text rest (l.value? .toml origin) := by
  obtain ⟨fuel, rfl⟩ : ∃ n, fuel = n + 1 := ⟨fuel - 1, by omega⟩
  cases h with
  | token hs => exact takes_token hs hrest
  | @list s ts hs =>
    have hitems : Takes (items origin fuel) (s ++ [']']) rest _ :=
      takes_items hs (by simp only [List.length_cons, List.length_append] at hfuel; omega)
    have hresult : (Literal.list ts).value? .toml origin =
        ((ts.mapM (Token.scalar? .toml)).map fun xs => xs.map (Value.scalar origin)).bind
          fun vs => some (.list origin vs) := by
      show (ts.mapM (Token.scalar? .toml)).map _ = _
      cases ts.mapM (Token.scalar? .toml) <;> rfl
    rw [value, hresult]
    refine (takes_peek ('[' :: (s ++ [']']) ++ rest)).look ?_
    refine (takes_pass ['['] (s ++ [']'] ++ rest)).next ?_
    exact hitems.bindLast fun vs _ => takes_pure (Value.list origin vs) rest

/-- The first character of a literal is no part of a gap, and closes no brace. -/
theorem exists_of_isLiteral {l : Literal} (h : IsLiteral text l) :
    ∃ c tail, text = c :: tail ∧ isBlank c = false := by
  cases h with
  | token hs =>
    obtain ⟨c, tail, rfl, hc⟩ := exists_of_isToken hs
    have hsolid := (isSolid_of_isWordy hc).1
    refine ⟨c, tail, rfl, ?_⟩
    cases hblank : isBlank c with
    | false => rfl
    | true => simp [isSolid, hblank] at hsolid
  | list => exact ⟨'[', _, rfl, rfl⟩

/-- A key with its literal is read, with a gap before it. -/
theorem takes_member {α : Type} {g k b s : List Char} {values : List String} {l : Literal}
    {p : List String → Value → Parser α} {result : Value → Option α} (hg : IsGap g)
    (hk : IsKey k values) (hb : IsBlank b) (hs : IsLiteral s l) (hends : EndsToken (text ++ rest))
    (hfuel : s.length + 1 ≤ fuel) (hp : ∀ v, Takes (p values v) text rest (result v))
    (closed : α) :
    Takes (do
      gap ((← unread).length + 1)
      if ← skip? ['\x7d'] then return closed
      let names ← key
      expect ['=']
      blanks
      p names (← value origin fuel)) (g ++ (k ++ '=' :: (b ++ (s ++ text)))) rest
      ((l.value? .toml origin).bind result) := by
  have hfirst : ∀ {test : Char → Bool},
      (∀ c, isBare c = true ∨ c = '"' ∨ c = '\'' → test c = false) →
      Stops test (k ++ '=' :: (b ++ (s ++ text)) ++ rest) := by
    intro test htest
    rw [List.append_assoc]
    exact stops_key hk _ htest
  have hwordy : ∀ c, isBare c = true ∨ c = '"' ∨ c = '\'' → isWordy c = true := by
    rintro c (hc | rfl | rfl)
    · unfold isBare at hc
      unfold isWordy isAtomChar
      simp only [Bool.or_eq_true] at hc ⊢
      simp only [hc, true_or]
    · decide
    · decide
  have hsolid := hfirst fun c hc => (isSolid_of_isWordy (hwordy c hc)).1
  have hnone : Takes (skip? ['\x7d']) []
      (k ++ '=' :: (b ++ (s ++ text)) ++ rest) (some false) :=
    takes_skip_none (isPrefixOf_of_stops [] (hfirst fun c hc =>
      decide_eq_false (isSolid_of_isWordy (hwordy c hc)).2.2))
  have hkey : Takes key ([] ++ k) ('=' :: (b ++ (s ++ text)) ++ rest) (some values) :=
    takes_key hk nofun (stops_cons (by decide) _)
  have hblanks : Takes blanks b (s ++ text ++ rest) (some ()) := by
    obtain ⟨c, tail, hc, hblank⟩ := exists_of_isLiteral hs
    refine takes_blanks hb ?_
    rw [hc]
    exact stops_cons hblank _
  refine takes_gapped hg hsolid (hnone.look (hkey.next ?_))
  refine (takes_expect ['='] (b ++ (s ++ text) ++ rest)).next (hblanks.next ?_)
  exact (takes_literal hs hends hfuel).bind fun v _ => hp v

/-- Members are read up to the brace that closes their table. -/
theorem takes_members {ms : List (List String × Literal)} (h : IsMembers text ms)
    {nodes : Nodes} (hfuel : text.length + 2 ≤ fuel) :
    Takes (members origin fuel nodes) (text ++ ['\x7d']) rest (assignAll origin ms nodes) := by
  induction h generalizing fuel nodes with
  | @nil g hg =>
    obtain ⟨fuel, rfl⟩ : ∃ n, fuel = n + 1 := ⟨fuel - 1, by omega⟩
    rw [members]
    refine takes_gapped hg (stops_cons (by decide) rest) ?_
    exact (takes_skip ['\x7d'] rest).last (takes_pure nodes rest)
  | @last g k b s g' values l hg hk hb hs hg' =>
    obtain ⟨fuel, rfl⟩ : ∃ n, fuel = n + 1 := ⟨fuel - 1, by omega⟩
    have hlen : s.length + 1 ≤ fuel := by
      simp only [List.length_append, List.length_cons] at hfuel
      omega
    have hends : EndsToken (g' ++ ['\x7d'] ++ rest) := by
      rw [List.append_assoc]
      exact endsToken_of_gap hg' (by simp) rest
    have hcomma : Takes (skip? [',']) [] (['\x7d'] ++ rest) (some false) :=
      takes_skip_none (isPrefixOf_of_stops [] (stops_cons (by decide) rest))
    rw [members, assignAll_cons]
    simp only [List.append_assoc, List.cons_append]
    refine takes_member hg hk hb hs hends hlen (fun v => ?_) nodes
    show Takes _ _ _ ((nodes.assign v values).bind _)
    cases nodes.assign v values with
    | none => exact takes_fail _ rest
    | some nodes =>
      refine takes_gapped hg' (stops_cons (by decide) rest) (hcomma.look ?_)
      exact (takes_expect ['\x7d'] rest).last (takes_pure nodes rest)
  | @cons g k b s g' more values l ms hg hk hb hs hg' hmore ih =>
    obtain ⟨fuel, rfl⟩ : ∃ n, fuel = n + 1 := ⟨fuel - 1, by omega⟩
    simp only [List.length_append, List.length_cons] at hfuel
    have hends : EndsToken (g' ++ ',' :: (more ++ ['\x7d']) ++ rest) := by
      rw [List.append_assoc]
      exact endsToken_of_gap hg' (by simp) _
    rw [members, assignAll_cons]
    simp only [List.append_assoc, List.cons_append]
    refine takes_member hg hk hb hs hends (by omega) (fun v => ?_) nodes
    show Takes _ _ _ ((nodes.assign v values).bind _)
    cases nodes.assign v values with
    | none => exact takes_fail _ rest
    | some nodes =>
      refine takes_gapped hg' (stops_cons (by decide) _) ?_
      exact (takes_skip [','] (more ++ ['\x7d'] ++ rest)).next (ih (by omega))

/-- A term is read as the value that it stands for. -/
theorem takes_term {term : Term} (h : IsTerm text term) (hrest : EndsToken rest)
    (hfuel : text.length + 1 ≤ fuel) :
    Takes (value origin fuel) text rest (term.value? origin) := by
  cases h with
  | literal hs => exact takes_literal hs hrest hfuel
  | @table s ms hs =>
    obtain ⟨fuel, rfl⟩ : ∃ n, fuel = n + 1 := ⟨fuel - 1, by omega⟩
    have hmembers : Takes (members origin fuel []) (s ++ ['\x7d']) rest _ :=
      takes_members hs (by simp only [List.length_cons, List.length_append] at hfuel; omega)
    have hresult : (Term.table ms).value? origin =
        (assignAll origin ms []).bind fun nodes =>
          some (.table origin (nodesToEntries origin nodes)) := by
      show (assignAll origin ms []).map _ = _
      cases assignAll origin ms [] <;> rfl
    rw [value, hresult]
    refine (takes_peek ('\x7b' :: (s ++ ['\x7d']) ++ rest)).look ?_
    refine (takes_pass ['\x7b'] (s ++ ['\x7d'] ++ rest)).next ?_
    exact hmembers.bindLast fun nodes _ => takes_pure (Value.table origin _) rest

/-- The first character of a term is no blank. -/
theorem exists_of_isTerm {term : Term} (h : IsTerm text term) :
    ∃ c tail, text = c :: tail ∧ isBlank c = false := by
  cases h with
  | literal hs => exact exists_of_isLiteral hs
  | table => exact ⟨'\x7b', _, rfl, rfl⟩

end Parser

end Toml

end MessageBroker.Config
