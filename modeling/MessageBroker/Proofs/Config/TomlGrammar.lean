import MessageBroker.Proofs.Config.Document

/-!
# Grammar of TOML

The texts of documents that have no tables in double brackets, and no brackets within brackets:
`IsName`, `IsKey`, `IsTerm` and `IsRow` say which text writes what. Nothing about them refers to the
reader. It is compared with them part by part: `Takes p text rest r` says that the parser takes a
text in front of some rest, with the result `r`, or fails if there is none. The rest matters because
most parts of a document end with the first character that cannot belong to them.
-/

namespace MessageBroker.Config.Toml

/-! ## Texts -/

/-- A blank. -/
def isBlank (c : Char) : Bool := c = ' ' || c = '\t'

/-- Spaces and tabs. -/
def IsBlank (s : List Char) : Prop := ∀ c ∈ s, isBlank c = true

/-- A comment, or nothing. -/
inductive IsComment : List Char → Prop
  | nothing : IsComment []
  | comment {s : List Char} (hs : ∀ c ∈ s, Parser.isPlain c = true) : IsComment ('#' :: s)

/-- The end of a line. -/
inductive IsLineEnd : List Char → Prop
  | feed : IsLineEnd ['\n']
  | carriage : IsLineEnd ['\r', '\n']

/-- Blanks, comments and line ends within brackets. -/
inductive IsGap : List Char → Prop
  | blank {b : List Char} (hb : IsBlank b) : IsGap b
  | line {b c e g : List Char} (hb : IsBlank b) (hc : IsComment c) (he : IsLineEnd e)
      (hg : IsGap g) : IsGap (b ++ (c ++ (e ++ g)))

/-- The characters that stand behind a backslash, and what they stand for. -/
def escapes : List (Char × Char) :=
  [('b', '\x08'), ('t', '\t'), ('n', '\n'), ('f', '\x0c'), ('r', '\r'), ('e', '\x1b'), ('"', '"'),
    ('\\', '\\')]

/-- The characters behind a backslash that announce the number of a character, and the number of its
digits. -/
def codes : List (Char × Nat) := [('x', 2), ('u', 4), ('U', 8)]

/-- The number of hexadecimal digits. -/
def codePoint? (digits : List Char) : Option Nat :=
  digits.foldlM (fun n c => (Parser.hexDigit? c).map (n * 16 + ·)) 0

/-- What stands between double quotes, and the characters that it stands for. -/
inductive Spells : List Char → List Char → Prop
  | nil : Spells [] []
  | plain {c : Char} {s t : List Char} (hc : Parser.isPlain c = true) (hquote : c ≠ '"')
      (hslash : c ≠ '\\') (hs : Spells s t) : Spells (c :: s) (c :: t)
  | escape {mark c : Char} {s t : List Char} (hmark : (mark, c) ∈ escapes) (hs : Spells s t) :
      Spells ('\\' :: mark :: s) (c :: t)
  | code {mark c : Char} {digits s t : List Char} (hmark : (mark, digits.length) ∈ codes)
      (hcode : codePoint? digits = some c.toNat) (hs : Spells s t) :
      Spells ('\\' :: mark :: (digits ++ s)) (c :: t)

/-- A string of one line, and the characters that it stands for. -/
inductive IsString : List Char → List Char → Prop
  | basic {s t : List Char} (hs : Spells s t) : IsString ('"' :: (s ++ ['"'])) t
  | literal {s : List Char} (hs : ∀ c ∈ s, (Parser.isPlain c && c ≠ '\'') = true) :
      IsString ('\'' :: (s ++ ['\''])) s

/-- Blanks and line ends. -/
inductive IsFold : List Char → Prop
  | blank {b : List Char} (hb : IsBlank b) : IsFold b
  | line {b e g : List Char} (hb : IsBlank b) (he : IsLineEnd e) (hg : IsFold g) :
      IsFold (b ++ (e ++ g))

/-- What stands between three quotes and three more, and the characters that it stands for. Between
single quotes, a backslash is a character like others; between double quotes, it begins an escape or
joins lines. A quote stands for itself as long as it is not the first of three. -/
inductive SpellsLines (quote : Char) : List Char → List Char → Prop
  | nil : SpellsLines quote [] []
  | plain {c : Char} {s t : List Char} (hc : Parser.isPlain c = true) (hquote : c ≠ quote)
      (hslash : c = '\\' → quote = '\'') (hs : SpellsLines quote s t) :
      SpellsLines quote (c :: s) (c :: t)
  | quote {s t : List Char} (hnext : ∃ c ∈ s.take 2, c ≠ quote) (hs : SpellsLines quote s t) :
      SpellsLines quote (quote :: s) (quote :: t)
  | line {e s t : List Char} (he : IsLineEnd e) (hs : SpellsLines quote s t) :
      SpellsLines quote (e ++ s) ('\n' :: t)
  | escape {mark c : Char} {s t : List Char} (hquote : quote = '"') (hmark : (mark, c) ∈ escapes)
      (hs : SpellsLines quote s t) : SpellsLines quote ('\\' :: mark :: s) (c :: t)
  | code {mark c : Char} {digits s t : List Char} (hquote : quote = '"')
      (hmark : (mark, digits.length) ∈ codes) (hcode : codePoint? digits = some c.toNat)
      (hs : SpellsLines quote s t) : SpellsLines quote ('\\' :: mark :: (digits ++ s)) (c :: t)
  | join {b e g s t : List Char} (hquote : quote = '"') (hb : IsBlank b) (he : IsLineEnd e)
      (hg : IsFold g) (hnext : ∀ c ∈ s.head?, c ∉ [' ', '\t', '\n', '\r'])
      (hs : SpellsLines quote s t) : SpellsLines quote ('\\' :: (b ++ (e ++ (g ++ s)))) t

/-- A string, and the characters that it stands for. One over several lines has three quotes on both
sides; a line end right behind the first three does not count, and up to two quotes may stand before
the last three. -/
inductive IsText : List Char → List Char → Prop
  | line {s t : List Char} (hs : IsString s t) : IsText s t
  | lines {quote : Char} {e s t : List Char} {extra : Nat} (hquote : quote = '"' ∨ quote = '\'')
      (he : IsLineEnd e ∨ e = [] ∧ ∀ c ∈ s.head?, c ≠ '\n' ∧ c ≠ '\r')
      (hs : SpellsLines quote s t) (hextra : extra ≤ 2) :
      IsText (quote :: quote :: quote :: (e ++ (s ++ List.replicate (extra + 3) quote)))
        (t ++ List.replicate extra quote)

/-- A bare or a quoted name. -/
inductive IsName : List Char → String → Prop
  | bare {s : List Char} (hne : s ≠ []) (hs : ∀ c ∈ s, Parser.isBare c = true) :
      IsName s (String.ofList s)
  | quoted {s t : List Char} (hs : IsString s t) : IsName s (String.ofList t)

/-- Names joined by points, with blanks behind each of them. -/
inductive IsKey : List Char → List String → Prop
  | last {s b : List Char} {name : String} (hs : IsName s name) (hb : IsBlank b) :
      IsKey (s ++ b) [name]
  | cons {s b b' more : List Char} {name : String} {names : List String} (hs : IsName s name)
      (hb : IsBlank b) (hb' : IsBlank b') (hmore : IsKey more names) :
      IsKey (s ++ (b ++ '.' :: (b' ++ more))) (name :: names)

/-- A word, or a string. -/
inductive IsToken : List Char → Token → Prop
  | word {s : List Char} (hne : s ≠ []) (hs : ∀ c ∈ s, isAtomChar c = true) : IsToken s (.word s)
  | text {s t : List Char} (hs : IsText s t) : IsToken s (.text (String.ofList t))

/-- Tokens with commas between them; one more may stand behind the last one. -/
inductive IsItems : List Char → List Token → Prop
  | nil {g : List Char} (hg : IsGap g) : IsItems g []
  | last {g s g' : List Char} {t : Token} (hg : IsGap g) (hs : IsToken s t) (hg' : IsGap g') :
      IsItems (g ++ (s ++ g')) [t]
  | cons {g s g' more : List Char} {t : Token} {ts : List Token} (hg : IsGap g)
      (hs : IsToken s t) (hg' : IsGap g') (hmore : IsItems more ts) :
      IsItems (g ++ (s ++ (g' ++ ',' :: more))) (t :: ts)

/-- A token, or a list of tokens. -/
inductive IsLiteral : List Char → Literal → Prop
  | token {s : List Char} {t : Token} (hs : IsToken s t) : IsLiteral s (.token t)
  | list {s : List Char} {ts : List Token} (hs : IsItems s ts) :
      IsLiteral ('[' :: (s ++ [']'])) (.list ts)

/-- Keys with literals, and with commas between them. -/
inductive IsMembers : List Char → List (List String × Literal) → Prop
  | nil {g : List Char} (hg : IsGap g) : IsMembers g []
  | last {g k b s g' : List Char} {names : List String} {l : Literal} (hg : IsGap g)
      (hk : IsKey k names) (hb : IsBlank b) (hs : IsLiteral s l) (hg' : IsGap g') :
      IsMembers (g ++ (k ++ '=' :: (b ++ (s ++ g')))) [(names, l)]
  | cons {g k b s g' more : List Char} {names : List String} {l : Literal}
      {ms : List (List String × Literal)} (hg : IsGap g) (hk : IsKey k names) (hb : IsBlank b)
      (hs : IsLiteral s l) (hg' : IsGap g') (hmore : IsMembers more ms) :
      IsMembers (g ++ (k ++ '=' :: (b ++ (s ++ (g' ++ ',' :: more))))) ((names, l) :: ms)

/-- A literal, or a table in braces. -/
inductive IsTerm : List Char → Term → Prop
  | literal {s : List Char} {l : Literal} (hs : IsLiteral s l) : IsTerm s (.literal l)
  | table {s : List Char} {ms : List (List String × Literal)} (hs : IsMembers s ms) :
      IsTerm ('\x7b' :: (s ++ ['\x7d'])) (.table ms)

/-- A line of a document: nothing, the header of a table, or a key with its value. -/
inductive Row where
  | nothing
  | header (way : List String) (last : String)
  | entry (names : List String) (term : Term)

/-- The text of a line, without its end. -/
inductive IsRow : List Char → Row → Prop
  | nothing {b c : List Char} (hb : IsBlank b) (hc : IsComment c) : IsRow (b ++ c) .nothing
  | header {b b' k b'' c : List Char} {way : List String} {last : String} (hb : IsBlank b)
      (hb' : IsBlank b') (hk : IsKey k (way ++ [last])) (hb'' : IsBlank b'') (hc : IsComment c) :
      IsRow (b ++ '[' :: (b' ++ (k ++ ']' :: (b'' ++ c)))) (.header way last)
  | entry {b k b' s b'' c : List Char} {names : List String} {term : Term} (hb : IsBlank b)
      (hk : IsKey k names) (hb' : IsBlank b') (hs : IsTerm s term) (hb'' : IsBlank b'')
      (hc : IsComment c) :
      IsRow (b ++ (k ++ '=' :: (b' ++ (s ++ (b'' ++ c))))) (.entry names term)

/-- The text of a document, line by line; the last line may have no end. -/
inductive IsDocument : List Char → List Row → Prop
  | nil : IsDocument [] []
  | last {s : List Char} {row : Row} (hne : s ≠ []) (hs : IsRow s row) : IsDocument s [row]
  | cons {s e more : List Char} {row : Row} {rows : List Row} (hs : IsRow s row)
      (he : IsLineEnd e) (hmore : IsDocument more rows) :
      IsDocument (s ++ (e ++ more)) (row :: rows)

namespace Parser

/-! ## Composition -/

section

variable {α β : Type} {p : Parser α} {text text' rest : List Char}

/-- Where the text stands before the rest, the parser takes it and gives the result; without a
result, it fails there. -/
def Takes (p : Parser α) (text rest : List Char) (result : Option α) : Prop :=
  p (text ++ rest) = result.map fun a => (a, rest)

/-- A result that is given without reading. -/
theorem takes_pure (a : α) (rest : List Char) : Takes (pure a) [] rest (some a) := rfl

/-- A failure. -/
theorem takes_fail (text rest : List Char) : Takes (fail : Parser α) text rest none := rfl

namespace Takes

/-- One parser behind the other: if the first one fails, both do. -/
theorem bind {result : Option α} {f : α → Parser β} {g : α → Option β}
    (hp : Takes p text (text' ++ rest) result)
    (hf : ∀ a, result = some a → Takes (f a) text' rest (g a)) :
    Takes (p >>= f) (text ++ text') rest (result.bind g) := by
  unfold Takes at hp hf ⊢
  rw [List.append_assoc]
  show (p (text ++ (text' ++ rest))).bind (fun s => f s.1 s.2) = _
  rw [hp]
  cases result with
  | none => rfl
  | some a => exact hf a rfl

/-- A parser behind a success. -/
theorem next {a : α} {f : α → Parser β} {result : Option β}
    (hp : Takes p text (text' ++ rest) (some a)) (hf : Takes (f a) text' rest result) :
    Takes (p >>= f) (text ++ text') rest result := by
  refine hp.bind (g := fun _ => result) ?_
  rintro _ ⟨⟩
  exact hf

/-- A parser behind one that takes nothing. -/
theorem look {a : α} {f : α → Parser β} {result : Option β}
    (hp : Takes p [] (text ++ rest) (some a)) (hf : Takes (f a) text rest result) :
    Takes (p >>= f) text rest result := hp.next hf

/-- A parser behind which nothing more is taken: if it fails, both do. -/
theorem bindLast {result : Option α} {f : α → Parser β} {g : α → Option β}
    (hp : Takes p text rest result) (hf : ∀ a, result = some a → Takes (f a) [] rest (g a)) :
    Takes (p >>= f) text rest (result.bind g) := by
  rw [← List.append_nil text]
  exact bind hp hf

/-- A parser behind which nothing more is taken. -/
theorem last {a : α} {f : α → Parser β} {result : Option β}
    (hp : Takes p text rest (some a)) (hf : Takes (f a) [] rest result) :
    Takes (p >>= f) text rest result := by
  rw [← List.append_nil text]
  exact next hp hf

/-- A function of what is taken. -/
theorem map {result : Option α} (hp : Takes p text rest result) (f : α → β) :
    Takes (f <$> p) text rest (result.map f) := by
  unfold Takes at hp ⊢
  show (p (text ++ rest)).bind (fun s => pure (f s.1, s.2)) = _
  rw [hp]
  cases result <;> rfl

end Takes

end

/-! ## Single steps -/

section

variable {text rest : List Char}

/-- The first character of the rest, if there is one, fails a test. -/
def Stops (test : Char → Bool) (rest : List Char) : Prop := ∀ c ∈ rest.head?, test c = false

/-- A rest that begins with a character. -/
theorem stops_cons {test : Char → Bool} {c : Char} (h : test c = false) (rest : List Char) :
    Stops test (c :: rest) := by
  rintro _ ⟨⟩
  exact h

/-- A text that may be empty, before a rest. -/
theorem Stops.append {test : Char → Bool} (hrest : Stops test rest)
    (htext : Stops test text) : Stops test (text ++ rest) := by
  cases text with
  | nil => exact hrest
  | cons c text => exact htext

/-- A stricter test fails as well. -/
theorem Stops.imp {test test' : Char → Bool} (h : Stops test rest)
    (himp : ∀ c, test' c = true → test c = true) : Stops test' rest := by
  intro c hc
  cases htest : test' c with
  | false => rfl
  | true => rw [← himp c htest, h c hc]

/-- The next character stays where it is. -/
theorem takes_peek (rest : List Char) : Takes peek [] rest (some rest.head?) := rfl

/-- The unread characters stay where they are. -/
theorem takes_unread (rest : List Char) : Takes unread [] rest (some rest) := rfl

/-- The next character is taken. -/
theorem takes_take (c : Char) (rest : List Char) : Takes take [c] rest (some c) := rfl

/-- A text is passed over. -/
theorem takes_pass (text rest : List Char) : Takes (pass text.length) text rest (some ()) := by
  show some ((), (text ++ rest).drop text.length) = _
  rw [List.drop_left]
  rfl

/-- The longest run of characters that satisfy a test is taken. -/
theorem takes_run {test : Char → Bool} (htext : ∀ c ∈ text, test c = true)
    (hrest : Stops test rest) : Takes (run test) text rest (some text) := by
  have hnone : rest.takeWhile test = [] ∧ rest.dropWhile test = rest := by
    cases rest with
    | nil => exact ⟨rfl, rfl⟩
    | cons c rest =>
      have hc : ¬ test c = true := by simp [hrest c rfl]
      exact ⟨List.takeWhile_cons_of_neg hc, List.dropWhile_cons_of_neg hc⟩
  show some ((text ++ rest).takeWhile test, (text ++ rest).dropWhile test) = _
  rw [List.takeWhile_append_of_pos htext, List.dropWhile_append_of_pos htext, hnone.1, hnone.2,
    List.append_nil]
  rfl

/-- A given text is taken where it comes next. -/
theorem takes_skip (text rest : List Char) : Takes (skip? text) text rest (some true) := by
  have hbegins : text.isPrefixOf (text ++ rest) = true :=
    List.isPrefixOf_iff_prefix.mpr (List.prefix_append text rest)
  show (if text.isPrefixOf (text ++ rest) then _ else _) = _
  rw [if_pos hbegins, List.drop_left]
  rfl

/-- A given text is not taken where it does not come next. -/
theorem takes_skip_none (h : text.isPrefixOf rest = false) :
    Takes (skip? text) [] rest (some false) := by
  show (if text.isPrefixOf rest then _ else _) = _
  rw [if_neg (by simp [h])]
  rfl

/-- A text that begins differently does not come next. -/
theorem isPrefixOf_of_stops {c : Char} (text : List Char) (h : Stops (· = c) rest) :
    (c :: text).isPrefixOf rest = false := by
  cases rest with
  | nil => rfl
  | cons d rest =>
    have hne : ¬ d = c := of_decide_eq_false (h d rfl)
    rw [List.isPrefixOf, beq_false_of_ne (Ne.symm hne)]
    rfl

/-- A text that must come next is taken. -/
theorem takes_expect (text rest : List Char) : Takes (expect text) text rest (some ()) :=
  (takes_skip text rest).last (takes_pure () rest)

/-- Blanks are passed over. -/
theorem takes_blanks (htext : IsBlank text) (hrest : Stops isBlank rest) :
    Takes blanks text rest (some ()) :=
  (takes_run htext hrest).last (takes_pure () rest)

/-- A comment is passed over, up to the end of its line. -/
theorem takes_comment (htext : IsComment text)
    (hrest : rest = [] ∨ ∃ c tail, rest = c :: tail ∧ (c = '\n' ∨ c = '\r')) :
    Takes comment text rest (some ()) := by
  cases htext with
  | nothing =>
    refine (takes_peek rest).look ?_
    rw [if_neg (by rcases hrest with rfl | ⟨c, tail, rfl, rfl | rfl⟩ <;> simp)]
    exact takes_pure () rest
  | @comment s hs =>
    have hplain : ∀ c ∈ '#' :: s, isPlain c = true := List.forall_mem_cons.mpr ⟨by decide, hs⟩
    have hstop : Stops isPlain rest := by
      rcases hrest with rfl | ⟨c, tail, rfl, rfl | rfl⟩ <;> rintro _ ⟨⟩ <;> decide
    refine (takes_peek ('#' :: s ++ rest)).look ?_
    rw [if_pos (show ('#' :: s ++ rest).head? = some '#' from rfl)]
    exact (takes_run hplain hstop).last (takes_pure () rest)

/-- The end of a line is taken. -/
theorem takes_lineEnd (htext : IsLineEnd text) (rest : List Char) :
    Takes lineEnd? text rest (some true) := by
  cases htext with
  | feed =>
    -- The parser looks for both characters together first.
    have hnone : Takes (skip? ['\r', '\n']) [] (['\n'] ++ rest) (some false) :=
      takes_skip_none (isPrefixOf_of_stops ['\n'] (stops_cons (by decide) rest))
    exact hnone.look (takes_skip ['\n'] rest)
  | carriage => exact (takes_skip ['\r', '\n'] rest).last (takes_pure true rest)

/-- Elsewhere, none is. -/
theorem takes_lineEnd_none (hrest : Stops (fun c => c = '\n' || c = '\r') rest) :
    Takes lineEnd? [] rest (some false) := by
  have hfeed : Stops (· = '\n') rest := hrest.imp fun c hc => by simp_all
  have hcarriage : Stops (· = '\r') rest := hrest.imp fun c hc => by simp_all
  have hnone : Takes (skip? ['\r', '\n']) [] ([] ++ rest) (some false) :=
    takes_skip_none (isPrefixOf_of_stops ['\n'] hcarriage)
  exact hnone.look (takes_skip_none (isPrefixOf_of_stops [] hfeed))

/-- The end of a line, or of the whole text. -/
def Ends (e rest : List Char) : Prop := IsLineEnd e ∨ (e = [] ∧ rest = [])

/-- What begins at the end of a line, or of the whole text. -/
theorem Ends.cases {e : List Char} (h : Ends e rest) :
    e ++ rest = [] ∨ ∃ c tail, e ++ rest = c :: tail ∧ (c = '\n' ∨ c = '\r') := by
  rcases h with h | ⟨rfl, rfl⟩
  · cases h with
    | feed => exact .inr ⟨'\n', rest, rfl, .inl rfl⟩
    | carriage => exact .inr ⟨'\r', '\n' :: rest, rfl, .inr rfl⟩
  · exact .inl rfl

/-- A comment and the end of its line begin with one of few characters. -/
theorem Ends.stops {c e : List Char} (h : Ends e rest) (hc : IsComment c) {test : Char → Bool}
    (hmark : test '#' = false) (hfeed : test '\n' = false) (hreturn : test '\r' = false) :
    Stops test (c ++ (e ++ rest)) := by
  refine Stops.append ?_ ?_
  · rcases h.cases with hnil | ⟨x, tail, hx, rfl | rfl⟩
    · rw [hnil]
      exact nofun
    · rw [hx]
      exact stops_cons hfeed tail
    · rw [hx]
      exact stops_cons hreturn tail
  · cases hc with
    | nothing => exact nofun
    | comment => exact stops_cons hmark _

/-- The rest of a line is passed over. -/
theorem takes_restOfLine {b c e : List Char} (hb : IsBlank b) (hc : IsComment c)
    (he : Ends e rest) : Takes restOfLine (b ++ (c ++ e)) rest (some ()) := by
  have hblank : Stops isBlank (c ++ (e ++ rest)) := he.stops hc rfl rfl rfl
  refine (takes_blanks hb (by rw [List.append_assoc]; exact hblank)).next ?_
  refine (takes_comment hc he.cases).next ?_
  rcases he with he | ⟨rfl, rfl⟩
  · exact (takes_lineEnd he rest).last (takes_pure () rest)
  · exact rfl

/-- A character that ends a gap. -/
def isSolid (c : Char) : Bool := !(isBlank c || c = '#' || c = '\n' || c = '\r')

/-- Blanks, comments and line ends are passed over. -/
theorem takes_gap (htext : IsGap text) (hrest : Stops (!isSolid ·) rest) {fuel : Nat}
    (hfuel : text.length < fuel) : Takes (gap fuel) text rest (some ()) := by
  induction htext generalizing fuel with
  | @blank b hb =>
    obtain ⟨fuel, rfl⟩ : ∃ n, fuel = n + 1 := ⟨fuel - 1, by omega⟩
    have hblank : Stops isBlank rest := hrest.imp fun c hc => by simp [isSolid, hc]
    have hsharp : Stops (· = '#') rest := hrest.imp fun c hc => by simp_all [isSolid]
    have hend : Stops (fun c => c = '\n' || c = '\r') rest :=
      hrest.imp fun c hc => by
        rcases (Bool.or_eq_true _ _).mp hc with hc | hc <;> simp_all [isSolid]
    rw [gap]
    refine (takes_blanks hb hblank).last ?_
    refine Takes.look (a := ()) ?_ ?_
    · refine (takes_peek rest).look ?_
      have hnone : ¬ rest.head? = some '#' := fun hhead => by
        have hfalse := hsharp '#' hhead
        simp at hfalse
      rw [if_neg hnone]
      exact takes_pure () rest
    · have hnone : Takes lineEnd? [] ([] ++ rest) (some false) := takes_lineEnd_none hend
      exact hnone.look (takes_pure () rest)
  | @line b c e g hb hc he hg ih =>
    obtain ⟨fuel, rfl⟩ : ∃ n, fuel = n + 1 := ⟨fuel - 1, by omega⟩
    -- Each line of a gap has a line end, which pays for one step.
    have hlen : g.length < fuel := by
      have hpos : 1 ≤ e.length := by cases he <;> simp
      simp only [List.length_append] at hfuel
      omega
    have hends : Ends e (g ++ rest) := .inl he
    have hblank : Stops isBlank (c ++ (e ++ (g ++ rest))) := hends.stops hc rfl rfl rfl
    rw [gap]
    refine (takes_blanks hb (by simpa only [List.append_assoc] using hblank)).next ?_
    refine (takes_comment hc (by simpa only [List.append_assoc] using hends.cases)).next ?_
    exact (takes_lineEnd he (g ++ rest)).next (ih hlen)

end

end Parser

end MessageBroker.Config.Toml
