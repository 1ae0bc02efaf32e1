import MessageBroker.Proofs.Config.Document

/-!
# Grammar of JSON

The texts of objects whose members are literals, or objects with literals: `IsToken`, `IsLiteral`
and `IsDocument` say which text writes what, with white space wherever JSON allows it. Nothing about
them refers to the reader. It is compared with them part by part, by what it does where a text
stands before some rest (`Reader.Reads`); `Reader.Reads.spaced` lets it pass over white space
first.

Numerals write integers, of any size. Names stand once in each object.
-/

namespace MessageBroker.Json

open Config (Token Literal Document)

/-! ## Texts -/

/-- White space. -/
def IsSpace (s : List Char) : Prop := ∀ c ∈ s, c ∈ [' ', '\n', '\t', '\r']

/-- A string, and the text that it stands for. -/
inductive IsString : List Char → String → Prop
  | quoted {s t : List Char} (hs : Spells s t) : IsString ('"' :: (s ++ ['"'])) (String.ofList t)

/-- A word, a numeral that writes an integer, or a string. -/
inductive IsToken : List Char → Token → Prop
  | word {s : List Char} (hs : s ∈ ["null".toList, "true".toList, "false".toList]) :
      IsToken s (.word s)
  | integer {s : List Char} {i : Int} (hs : written? s = some i) : IsToken s (.word s)
  | text {s : List Char} {t : String} (hs : IsString s t) : IsToken s (.text t)

/-- Tokens with commas between them. -/
inductive IsItems : List Char → List Token → Prop
  | last {b s b' : List Char} {t : Token} (hb : IsSpace b) (hs : IsToken s t) (hb' : IsSpace b') :
      IsItems (b ++ (s ++ b')) [t]
  | cons {b s b' more : List Char} {t : Token} {ts : List Token} (hb : IsSpace b)
      (hs : IsToken s t) (hb' : IsSpace b') (hmore : IsItems more ts) :
      IsItems (b ++ (s ++ (b' ++ ',' :: more))) (t :: ts)

/-- A token, or an array of tokens. -/
inductive IsLiteral : List Char → Literal → Prop
  | token {s : List Char} {t : Token} (hs : IsToken s t) : IsLiteral s (.token t)
  | empty {b : List Char} (hb : IsSpace b) : IsLiteral ('[' :: (b ++ [']'])) (.list [])
  | list {s : List Char} {ts : List Token} (hs : IsItems s ts) :
      IsLiteral ('[' :: (s ++ [']'])) (.list ts)

section

variable {α : Type}

/-- Names with values, and with commas between them. -/
inductive IsMembers (isValue : List Char → α → Prop) : List Char → List (String × α) → Prop
  | last {b k b' b'' s e : List Char} {name : String} {a : α} (hb : IsSpace b)
      (hk : IsString k name) (hb' : IsSpace b') (hb'' : IsSpace b'') (hs : isValue s a)
      (he : IsSpace e) :
      IsMembers isValue (b ++ (k ++ (b' ++ ':' :: (b'' ++ (s ++ e))))) [(name, a)]
  | cons {b k b' b'' s e more : List Char} {name : String} {a : α} {ms : List (String × α)}
      (hb : IsSpace b) (hk : IsString k name) (hb' : IsSpace b') (hb'' : IsSpace b'')
      (hs : isValue s a) (he : IsSpace e) (hmore : IsMembers isValue more ms) :
      IsMembers isValue (b ++ (k ++ (b' ++ ':' :: (b'' ++ (s ++ (e ++ ',' :: more))))))
        ((name, a) :: ms)

/-- An object, in which no name stands twice. -/
inductive IsObject (isValue : List Char → α → Prop) : List Char → List (String × α) → Prop
  | empty {b : List Char} (hb : IsSpace b) : IsObject isValue ('\x7b' :: (b ++ ['\x7d'])) []
  | members {s : List Char} {ms : List (String × α)} (hs : IsMembers isValue s ms)
      (hnodup : (ms.map Prod.fst).Nodup) : IsObject isValue ('\x7b' :: (s ++ ['\x7d'])) ms

end

/-- What stands under a name at the top: a literal, or an object with literals. -/
inductive Entry where
  | literal (literal : Literal)
  | object (members : List (String × Literal))

/-- A literal, or an object with literals. -/
inductive IsEntry : List Char → Entry → Prop
  | literal {s : List Char} {l : Literal} (hs : IsLiteral s l) : IsEntry s (.literal l)
  | object {s : List Char} {ms : List (String × Literal)} (hs : IsObject IsLiteral s ms) :
      IsEntry s (.object ms)

/-- A whole text: an object with white space around it. -/
inductive IsDocument : List Char → List (String × Entry) → Prop
  | object {b s b' : List Char} {entries : List (String × Entry)} (hb : IsSpace b)
      (hs : IsObject IsEntry s entries) (hb' : IsSpace b') : IsDocument (b ++ (s ++ b')) entries

/-! ## Values -/

/-- The value of a token. -/
def ofToken? : Token → Option Json
  | .word s =>
    if s = "null".toList then some .null
    else if s = "true".toList then some (.boolean true)
    else if s = "false".toList then some (.boolean false)
    else ofNumeral? s
  | .text t => some (.string t)

/-- The value of a literal. -/
def ofLiteral? : Literal → Option Json
  | .token t => ofToken? t
  | .list ts => (ts.mapM ofToken?).map .array

/-- The members of an object, which are put in one after the other. -/
def insertAll {α : Type} (json? : α → Option Json) (ms : List (String × α))
    (done : List (String × Json)) : Option (List (String × Json)) :=
  ms.foldlM (fun done m => (json? m.2).map fun v => Entries.insert m.1 v done) done

/-- The value of an entry. -/
def Entry.value? : Entry → Option Json
  | .literal l => ofLiteral? l
  | .object ms => (insertAll ofLiteral? ms []).map .object

/-- The first member is put in before the others. -/
theorem insertAll_cons {α : Type} (json? : α → Option Json) (m : String × α)
    (ms : List (String × α)) (done : List (String × Json)) :
    insertAll json? (m :: ms) done =
      (json? m.2).bind fun v => insertAll json? ms (Entries.insert m.1 v done) := by
  unfold insertAll
  rw [List.foldlM_cons]
  cases json? m.2 <;> rfl

namespace Reader

variable {α : Type} {text rest : List UInt8} {fuel depth : Nat}

/-! ## White space -/

/-- The bytes of white space. -/
theorem isSpace_of_mem {b : List Char} (hb : IsSpace b) {byte : UInt8}
    (hbyte : byte ∈ Utf8.encode b) : Cursor.isSpace byte = true := by
  have hascii : ∀ c ∈ b, c.toNat < 128 := fun c hc => by
    have hmem := hb c hc
    simp only [List.mem_cons, List.not_mem_nil, or_false] at hmem
    rcases hmem with rfl | rfl | rfl | rfl <;> decide
  rw [Utf8.encode_of_lt hascii] at hbyte
  obtain ⟨c, hc, rfl⟩ := List.mem_map.mp hbyte
  have hmem := hb c hc
  simp only [List.mem_cons, List.not_mem_nil, or_false] at hmem
  rcases hmem with rfl | rfl | rfl | rfl <;> rfl

/-- The rest does not begin with white space. -/
def Starts (rest : List UInt8) : Prop := ∀ byte ∈ rest.head?, Cursor.isSpace byte = false

/-- A rest that begins with something else. -/
theorem starts_cons {byte : UInt8} (h : Cursor.isSpace byte = false) (rest : List UInt8) :
    Starts (byte :: rest) := by
  rintro _ ⟨⟩
  exact h

/-- A reader that first passes over white space reads the same behind more of it. -/
theorem Reads.spaced {f : Unit → Reader α} {result : Option α} {b : List Char}
    (h : Reads (space >>= f) text rest result) (hb : IsSpace b) (hstarts : Starts (text ++ rest)) :
    Reads (space >>= f) (Utf8.encode b ++ text) rest result := by
  intro c hc
  have hspaces : c.rest.takeWhile Cursor.isSpace = Utf8.encode b := by
    rw [hc, List.append_assoc, List.takeWhile_append_of_pos fun byte => isSpace_of_mem hb]
    cases hrest : text ++ rest with
    | nil => exact List.append_nil _
    | cons byte tail =>
      have hbyte : Cursor.isSpace byte = false := hstarts byte (by rw [hrest]; rfl)
      rw [List.takeWhile_cons_of_neg (by simp [hbyte]), List.append_nil]
  have hnext : c.skipSpace.rest = text ++ rest := by
    unfold Cursor.skipSpace
    rw [hspaces]
    exact skip_rest (by rw [hc, List.append_assoc])
  have hsame : c.skipSpace.skipSpace = c.skipSpace := skipSpace_eq (by rw [hnext]; exact hstarts)
  -- The cursor behind the white space is where the reader would go from there, too.
  have heq : (space >>= f) c = (space >>= f) c.skipSpace := by
    show f () c.skipSpace = f () c.skipSpace.skipSpace
    rw [hsame]
  rw [heq]
  exact h _ hnext

/-- A reader that first passes over white space and then takes nothing, in front of more of it. -/
theorem Reads.spacedNil {f : Unit → Reader α} {result : Option α} {b : List Char}
    (h : Reads (space >>= f) [] rest result) (hb : IsSpace b) (hstarts : Starts rest) :
    Reads (space >>= f) (Utf8.encode b) rest result := by
  have hall := h.spaced hb hstarts
  rwa [List.append_nil] at hall

end Reader

end MessageBroker.Json
