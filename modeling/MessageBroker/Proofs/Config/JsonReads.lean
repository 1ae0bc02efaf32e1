import MessageBroker.Proofs.Config.JsonGrammar

/-!
# Written JSON is read

The reader takes what the grammar of JSON writes: tokens (`reads_token`), literals
(`reads_literalValue`), objects (`reads_objectOf`) and whole texts (`parse_of_isDocument`). A
numeral may stand for no value, when it is out of the range of doubles, and then the reader fails
there.

As for values in compact form, fuel of twice the number of bytes is enough.
-/

namespace MessageBroker.Json

open Config (Token Literal)

namespace Reader

variable {rest : List UInt8} {fuel depth : Nat}

/-! ## Rests -/

/-- White space, a comma or a closing bracket follows, if anything does. -/
def EndsValue (rest : List UInt8) : Prop :=
  ∀ byte ∈ rest.head?, byte ∈ ([32, 10, 9, 13, 44, 93, 125] : List UInt8)

/-- What ends a value ends a numeral. -/
theorem EndsValue.endsNumeral (h : EndsValue rest) : EndsNumeral rest := by
  have hall : ∀ byte ∈ ([32, 10, 9, 13, 44, 93, 125] : List UInt8),
      let c := Char.ofNat byte.toNat
      c.isDigit = false ∧ c ≠ '.' ∧ c ≠ 'e' ∧ c ≠ 'E' := by decide +kernel
  intro c hc
  obtain ⟨byte, hbyte, rfl⟩ := Option.map_eq_some_iff.mp hc
  exact hall byte (h byte hbyte)

/-- White space in front of something that ends a value. -/
theorem EndsValue.spaced (h : EndsValue rest) {b : List Char} (hb : IsSpace b) :
    EndsValue (Utf8.encode b ++ rest) := by
  cases hencode : Utf8.encode b with
  | nil => exact h
  | cons byte tail =>
    rintro _ ⟨⟩
    have hspace := isSpace_of_mem hb (hencode ▸ List.mem_cons_self)
    unfold Cursor.isSpace at hspace
    simp only [Bool.or_eq_true, decide_eq_true_eq] at hspace
    rcases hspace with ((rfl | rfl) | rfl) | rfl <;> simp

/-! ## Tokens -/

/-- A string is read behind white space. -/
theorem reads_quoted {s : List Char} {t : String} (h : IsString s t) (rest : List UInt8) :
    ∃ body, Utf8.encode s = 34 :: body ∧ Reads literal body rest (some t) := by
  cases h with
  | @quoted s t hs =>
    refine ⟨Utf8.encode s ++ [34], ?_, reads_spelled hs rest⟩
    show 34 :: Utf8.encode (s ++ ['"']) = _
    rw [Utf8.encode_append]
    rfl

/-- The first byte of a token is neither white space nor a closing bracket. -/
theorem opens_token {s : List Char} {t : Token} (h : IsToken s t) : Opens (Utf8.encode s) := by
  cases h with
  | word hs =>
    simp only [List.mem_cons, List.not_mem_nil, or_false] at hs
    rcases hs with rfl | rfl | rfl <;> exact ⟨_, _, rfl, rfl, by decide⟩
  | integer hs =>
    obtain ⟨c, tail, rfl, hascii, hnumeric⟩ := head_of_written hs
    refine ⟨UInt8.ofNat c.toNat, Utf8.encode tail, ?_, isSpace_of_numeric hnumeric⟩
    show String.utf8EncodeChar c ++ _ = _
    rw [Utf8.encodeChar_of_lt hascii]
    rfl
  | text hs =>
    obtain ⟨body, hbody, -⟩ := reads_quoted hs []
    exact ⟨34, body, hbody, rfl, by decide⟩

/-- The words are no numerals. -/
theorem ofToken?_numeral {s : List Char} {i : Int} (h : written? s = some i) :
    ofToken? (.word s) = ofNumeral? s := by
  have hword : ∀ word : List Char, written? word = none → s ≠ word := by
    rintro word hnone rfl
    rw [hnone] at h
    cases h
  unfold ofToken?
  dsimp only
  rw [if_neg (hword _ (by decide)), if_neg (hword _ (by decide)), if_neg (hword _ (by decide))]

/-- A token is read as its value. -/
theorem reads_token {s : List Char} {t : Token} (h : IsToken s t) (hrest : EndsValue rest) :
    Reads (value (fuel + 2) depth .any) (Utf8.encode s) rest (ofToken? t) := by
  cases h with
  | word hs =>
    simp only [List.mem_cons, List.not_mem_nil, or_false] at hs
    rw [value, anyValue]
    rcases hs with rfl | rfl | rfl
    · refine (reads_first rfl _).look ?_
      exact (reads_word (Utf8.lt_of_all rfl) rest).last (reads_pure Json.null rest)
    · refine (reads_first rfl _).look ?_
      exact (reads_word (Utf8.lt_of_all rfl) rest).last (reads_pure (Json.boolean true) rest)
    · refine (reads_first rfl _).look ?_
      exact (reads_word (Utf8.lt_of_all rfl) rest).last (reads_pure (Json.boolean false) rest)
  | integer hs =>
    rw [ofToken?_numeral hs]
    exact reads_value_of_written hs hrest.endsNumeral fuel depth
  | text hs =>
    obtain ⟨body, hbody, hread⟩ := reads_quoted hs rest
    rw [value, anyValue, hbody]
    refine (reads_first rfl _).look ?_
    exact (reads_pass [34] _).next (hread.map Json.string)

/-! ## White space before values -/

/-- What looks for the first character of a value passes over white space. -/
theorem first_bind {α : Type} (f : Char → Reader α) :
    first >>= f = space >>= fun _ => (do
      match ← peek with
      | some c => return c
      | none => failNext .endInValue) >>= f := funext fun _ => rfl

/-- A value is read behind white space. -/
theorem reads_value_spaced {text : List UInt8} {b : List Char} {result : Option Json}
    (h : Reads (value (fuel + 2) depth .any) text rest result) (hb : IsSpace b)
    (hopens : Opens text) :
    Reads (value (fuel + 2) depth .any) (Utf8.encode b ++ text) rest result := by
  obtain ⟨byte, tail, rfl, hspace, -⟩ := hopens
  rw [value, anyValue, first_bind] at h ⊢
  exact h.spaced hb (starts_cons hspace _)

/-- The end of an array is seen behind white space. -/
theorem reads_hasItem_end_spaced (isFirst : Bool) {b : List Char} (hb : IsSpace b)
    (rest : List UInt8) :
    Reads (hasItem isFirst) (Utf8.encode b) (93 :: rest) (some false) := by
  have hread := reads_hasItem_end isFirst rest
  unfold hasItem at hread ⊢
  exact hread.spacedNil hb (starts_cons rfl rest)

/-- The first item of an array is seen behind white space. -/
theorem reads_hasItem_first_spaced {b : List Char} (hb : IsSpace b) (h : Opens rest) :
    Reads (hasItem true) (Utf8.encode b) rest (some true) := by
  have hread := reads_hasItem_first h
  obtain ⟨byte, tail, rfl, hspace, -⟩ := h
  unfold hasItem at hread ⊢
  exact hread.spacedNil hb (starts_cons hspace tail)

/-- The first character of a value is seen behind white space. -/
theorem reads_first_spaced {b : List Char} (hb : IsSpace b) {byte : UInt8}
    (hspace : Cursor.isSpace byte = false) (rest : List UInt8) :
    Reads first (Utf8.encode b) (byte :: rest) (some (Char.ofNat byte.toNat)) := by
  have hread := reads_first hspace rest
  unfold first at hread ⊢
  exact hread.spacedNil hb (starts_cons hspace rest)

/-- A further item is seen behind its comma, with white space around that. -/
theorem reads_hasItem_next_spaced {b b' : List Char} (hb : IsSpace b) (hb' : IsSpace b')
    (h : Opens rest) :
    Reads (hasItem false) (Utf8.encode b ++ 44 :: Utf8.encode b') rest (some true) := by
  have hread : Reads (hasItem false) (44 :: Utf8.encode b') rest (some true) := by
    obtain ⟨byte, tail, rfl, hspace, hclose⟩ := h
    refine (reads_space_cons rfl _).look ((reads_peek _).look ?_)
    refine (reads_pass [44] _).next ((reads_first_spaced hb' hspace tail).last ?_)
    rw [if_neg fun heq => hclose (byte_eq_of_char heq)]
    exact reads_pure true _
  unfold hasItem at hread ⊢
  exact hread.spaced hb (starts_cons rfl _)

/-- The end of an object is seen behind white space. -/
theorem reads_hasMember_end_spaced (isFirst : Bool) {b : List Char} (hb : IsSpace b)
    (rest : List UInt8) :
    Reads (hasMember isFirst) (Utf8.encode b) (125 :: rest) (some false) := by
  have hread := reads_hasMember_end isFirst rest
  unfold hasMember at hread ⊢
  exact hread.spacedNil hb (starts_cons rfl rest)

/-- The first member of an object is seen behind white space, and the quote in front of its name is
taken. -/
theorem reads_hasMember_first_spaced {b : List Char} (hb : IsSpace b) (rest : List UInt8) :
    Reads (hasMember true) (Utf8.encode b ++ [34]) rest (some true) := by
  have hread := reads_hasMember_first rest
  unfold hasMember at hread ⊢
  exact hread.spaced hb (starts_cons rfl _)

/-- A further member is seen behind its comma, with white space around that. -/
theorem reads_hasMember_next_spaced {b b' : List Char} (hb : IsSpace b) (hb' : IsSpace b')
    (rest : List UInt8) :
    Reads (hasMember false) (Utf8.encode b ++ 44 :: (Utf8.encode b' ++ [34])) rest (some true) := by
  have hquote : Reads (do
      pass 1
      let c ← first
      if c = '\x7d' then failNext .trailingComma else return c) (44 :: Utf8.encode b')
        ([34] ++ rest) (some '"') := by
    refine (reads_pass [44] _).next ((reads_first_spaced hb' rfl rest).last ?_)
    rw [if_neg (by decide)]
    exact reads_pure '"' _
  have hread : Reads (hasMember false) (44 :: Utf8.encode b' ++ [34]) rest (some true) := by
    refine (reads_space_cons rfl _).look ((reads_peek _).look (hquote.next ?_))
    rw [if_pos rfl]
    exact (reads_pass [34] rest).last (reads_pure true rest)
  unfold hasMember at hread ⊢
  exact hread.spaced hb (starts_cons rfl _)

/-- The colon behind a name is taken behind white space. -/
theorem reads_colon_spaced {b : List Char} (hb : IsSpace b) (rest : List UInt8) :
    Reads colon (Utf8.encode b ++ [58]) rest (some ()) := by
  have hread := reads_colon rest
  unfold colon at hread ⊢
  exact hread.spaced hb (starts_cons rfl _)

/-! ## Literals -/

/-- Items are read up to the end of their array, once it is seen that there is one. -/
theorem reads_spacedItems {text : List Char} {ts : List Token} (h : IsItems text ts)
    {isFirst : Bool} {before : List UInt8}
    (hbefore : ∀ {b : List Char} {rest : List UInt8}, IsSpace b → Opens rest →
      Reads (hasItem isFirst) (before ++ Utf8.encode b) rest (some true))
    (hfuel : 2 * (Utf8.encode text).length + 1 ≤ fuel) :
    Reads (items fuel depth .any isFirst) (before ++ Utf8.encode text) (93 :: rest)
      (ts.mapM ofToken?) := by
  induction h generalizing fuel isFirst before with
  | @last b s b' t hb hs hb' =>
    have hpos := (opens_token hs).length_pos
    simp only [Utf8.encode_append, List.length_append] at hfuel
    obtain ⟨fuel, rfl⟩ : ∃ n, fuel = n + 3 := ⟨fuel - 3, by omega⟩
    have hopens : Opens (Utf8.encode s ++ Utf8.encode b' ++ 93 :: rest) :=
      ((opens_token hs).append _).append _
    have hends : EndsValue (Utf8.encode b' ++ 93 :: rest) :=
      EndsValue.spaced (by rintro _ ⟨⟩; simp) hb'
    -- Behind the last item, the reader looks for one more.
    have hnone : Reads (items (fuel + 2) depth .any false) (Utf8.encode b') (93 :: rest)
        (some []) := by
      rw [items]
      refine (reads_hasItem_end_spaced false hb' rest).last ?_
      rw [if_neg Bool.false_ne_true]
      exact reads_pure [] _
    have htoken : Reads (value (fuel + 2) depth .any) (Utf8.encode s)
        (Utf8.encode b' ++ 93 :: rest) (ofToken? t) := reads_token hs hends
    have hresult : [t].mapM ofToken? = (ofToken? t).bind fun v => some [v] := by
      rw [List.mapM_cons]
      cases ofToken? t <;> rfl
    rw [items, hresult, Utf8.encode_append, Utf8.encode_append, ← List.append_assoc]
    refine (hbefore hb hopens).next ?_
    rw [if_pos rfl]
    exact htoken.bind fun v _ => hnone.last (reads_pure [v] _)
  | @cons b s b' more t ts hb hs hb' hmore ih =>
    have hpos := (opens_token hs).length_pos
    have hcomma : Utf8.encode (b' ++ ',' :: more) =
        Utf8.encode b' ++ 44 :: Utf8.encode more := by
      rw [Utf8.encode_append]
      rfl
    simp only [Utf8.encode_append, hcomma, List.length_append, List.length_cons] at hfuel
    obtain ⟨fuel, rfl⟩ : ∃ n, fuel = n + 3 := ⟨fuel - 3, by omega⟩
    have hopens : Opens (Utf8.encode s ++ Utf8.encode (b' ++ ',' :: more) ++ 93 :: rest) :=
      ((opens_token hs).append _).append _
    have hends : EndsValue (Utf8.encode b' ++ 44 :: Utf8.encode more ++ 93 :: rest) := by
      rw [List.append_assoc]
      exact EndsValue.spaced (by rintro _ ⟨⟩; simp) hb'
    have hothers : Reads (items (fuel + 2) depth .any false)
        (Utf8.encode b' ++ 44 :: Utf8.encode more) (93 :: rest) (ts.mapM ofToken?) := by
      have hnext : Reads (items (fuel + 2) depth .any false)
          (Utf8.encode b' ++ [44] ++ Utf8.encode more) (93 :: rest) (ts.mapM ofToken?) :=
        ih (fun hb hopens => by
          rw [List.append_assoc]
          exact reads_hasItem_next_spaced hb' hb hopens) (by omega)
      rwa [List.append_assoc] at hnext
    have htoken : Reads (value (fuel + 2) depth .any) (Utf8.encode s)
        (Utf8.encode b' ++ 44 :: Utf8.encode more ++ 93 :: rest) (ofToken? t) :=
      reads_token hs hends
    rw [items, List.mapM_cons, Utf8.encode_append, Utf8.encode_append, ← List.append_assoc]
    refine (hbefore hb hopens).next ?_
    rw [if_pos rfl, hcomma]
    exact htoken.bind fun v _ => hothers.bindLast fun vs _ => reads_pure (v :: vs) _

/-- An array is read if its items are. -/
theorem reads_brackets {text : List Char} {result : Option (List Json)}
    (hitems : ∀ fuel, 2 * (Utf8.encode text).length + 1 ≤ fuel →
      Reads (items fuel depth .any true) (Utf8.encode text) (93 :: rest) result)
    (hfuel : 2 * (Utf8.encode ('[' :: (text ++ [']']))).length ≤ fuel) :
    Reads (value fuel (depth + 1) .any) (Utf8.encode ('[' :: (text ++ [']']))) rest
      (result.map Json.array) := by
  have hbytes : Utf8.encode ('[' :: (text ++ [']'])) = 91 :: (Utf8.encode text ++ [93]) := by
    show 91 :: Utf8.encode (text ++ [']']) = _
    rw [Utf8.encode_append]
    rfl
  rw [hbytes, List.length_cons, List.length_append, List.length_singleton] at hfuel
  obtain ⟨fuel, rfl⟩ : ∃ n, fuel = n + 2 := ⟨fuel - 2, by omega⟩
  rw [hbytes, value, anyValue, Option.map_eq_bind]
  refine (reads_first rfl _).look ?_
  refine (reads_enter depth 91 _).next ?_
  exact (hitems fuel (by omega)).bind fun found _ => reads_endList (Json.array found) rest

/-- An object is read if its members are. -/
theorem reads_braces {text : List Char} {result : Option (List (String × Json))}
    (hmembers : ∀ fuel, 2 * (Utf8.encode text).length + 1 ≤ fuel →
      Reads (members fuel depth .any true []) (Utf8.encode text) (125 :: rest) result)
    (hfuel : 2 * (Utf8.encode ('\x7b' :: (text ++ ['\x7d']))).length ≤ fuel) :
    Reads (value fuel (depth + 1) .any) (Utf8.encode ('\x7b' :: (text ++ ['\x7d']))) rest
      (result.map Json.object) := by
  have hbytes : Utf8.encode ('\x7b' :: (text ++ ['\x7d'])) =
      123 :: (Utf8.encode text ++ [125]) := by
    show 123 :: Utf8.encode (text ++ ['\x7d']) = _
    rw [Utf8.encode_append]
    rfl
  rw [hbytes, List.length_cons, List.length_append, List.length_singleton] at hfuel
  obtain ⟨fuel, rfl⟩ : ∃ n, fuel = n + 2 := ⟨fuel - 2, by omega⟩
  rw [hbytes, value, anyValue, Option.map_eq_bind]
  refine (reads_first rfl _).look ?_
  refine (reads_enter depth 123 _).next ?_
  exact (hmembers fuel (by omega)).bind fun found _ => reads_endObject (Json.object found) rest

/-- A literal begins like a value. -/
theorem opens_literal {s : List Char} {l : Literal} (h : IsLiteral s l) :
    Opens (Utf8.encode s) := by
  cases h with
  | token hs => exact opens_token hs
  | empty | list => exact ⟨91, _, rfl, rfl, by decide⟩

/-- A literal is read as its value. -/
theorem reads_literalValue {s : List Char} {l : Literal} (h : IsLiteral s l)
    (hrest : EndsValue rest) (hfuel : 2 * (Utf8.encode s).length ≤ fuel) :
    Reads (value fuel (depth + 1) .any) (Utf8.encode s) rest (ofLiteral? l) := by
  cases h with
  | token hs =>
    have hpos := (opens_token hs).length_pos
    obtain ⟨fuel, rfl⟩ : ∃ n, fuel = n + 2 := ⟨fuel - 2, by omega⟩
    exact reads_token hs hrest
  | empty hb =>
    show Reads _ _ rest ((some []).map Json.array)
    refine reads_brackets (fun fuel hfuel => ?_) hfuel
    obtain ⟨fuel, rfl⟩ : ∃ n, fuel = n + 1 := ⟨fuel - 1, by omega⟩
    rw [items]
    refine (reads_hasItem_end_spaced true hb rest).last ?_
    rw [if_neg Bool.false_ne_true]
    exact reads_pure [] _
  | list hs =>
    refine reads_brackets (fun fuel hfuel => ?_) hfuel
    have hitems : Reads (items fuel depth .any true) ([] ++ Utf8.encode _) (93 :: rest) _ :=
      reads_spacedItems hs (fun hb hopens => reads_hasItem_first_spaced hb hopens) hfuel
    exact hitems

/-! ## Members -/

section

variable {α : Type} {isValue : List Char → α → Prop} {json? : α → Option Json}

/-- Values of a kind begin like values, and are read with enough fuel. -/
structure ReadsValues (isValue : List Char → α → Prop) (json? : α → Option Json)
    (depth : Nat) : Prop where
  opens : ∀ {s a}, isValue s a → Opens (Utf8.encode s)
  reads : ∀ {s a fuel rest}, isValue s a → EndsValue rest → 2 * (Utf8.encode s).length ≤ fuel →
    Reads (value fuel depth .any) (Utf8.encode s) rest (json? a)

/-- A member is read, once it is seen that there is one, and then what stands behind it. -/
theorem reads_spacedMember (hvalues : ReadsValues isValue json? depth) {isFirst : Bool}
    {before after : List UInt8} {b k b' b'' s : List Char} {name : String} {a : α}
    {done : List (String × Json)} {result : Json → Option (List (String × Json))}
    (hbefore : ∀ rest,
      Reads (hasMember isFirst) (before ++ (Utf8.encode b ++ [34])) rest (some true))
    (hk : IsString k name) (hb' : IsSpace b') (hb'' : IsSpace b'') (hs : isValue s a)
    (hends : EndsValue (after ++ rest)) (hfuel : 2 * (Utf8.encode s).length ≤ fuel)
    (hafter : ∀ v, Reads (members fuel depth .any false (Entries.insert name v done)) after rest
      (result v)) :
    Reads (members (fuel + 1) depth .any isFirst done)
      (before ++ (Utf8.encode b ++ (Utf8.encode k ++ (Utf8.encode b' ++
        58 :: (Utf8.encode b'' ++ (Utf8.encode s ++ after)))))) rest
      ((json? a).bind result) := by
  have hopens := hvalues.opens hs
  have hpos := hopens.length_pos
  obtain ⟨fuel, rfl⟩ : ∃ n, fuel = n + 2 := ⟨fuel - 2, by omega⟩
  have hvalue : Reads (value (fuel + 2) depth .any) (Utf8.encode b'' ++ Utf8.encode s)
      (after ++ rest) (json? a) :=
    reads_value_spaced (hvalues.reads hs hends hfuel) hb'' hopens
  obtain ⟨body, hbody, hname⟩ := reads_quoted hk
    ((Utf8.encode b' ++ [58]) ++ ((Utf8.encode b'' ++ Utf8.encode s) ++ after) ++ rest)
  have hall : Reads (members (fuel + 3) depth .any isFirst done)
      ((before ++ (Utf8.encode b ++ [34])) ++ (body ++ ((Utf8.encode b' ++ [58]) ++
        ((Utf8.encode b'' ++ Utf8.encode s) ++ after)))) rest ((json? a).bind result) := by
    rw [members]
    refine (hbefore _).next ?_
    rw [if_pos rfl]
    refine hname.next ((reads_colon_spaced hb' _).next ?_)
    exact hvalue.bind fun v _ => hafter v
  rw [hbody]
  simpa only [List.append_assoc, List.cons_append, List.nil_append] using hall

/-- Members are read up to the end of their object, once it is seen that there is one. -/
theorem reads_spacedMembers (hvalues : ReadsValues isValue json? depth) {text : List Char}
    {ms : List (String × α)} (h : IsMembers isValue text ms) {isFirst : Bool}
    {before : List UInt8} {done : List (String × Json)}
    (hbefore : ∀ {b : List Char}, IsSpace b → ∀ rest,
      Reads (hasMember isFirst) (before ++ (Utf8.encode b ++ [34])) rest (some true))
    (hfuel : 2 * (Utf8.encode text).length + 1 ≤ fuel) :
    Reads (members fuel depth .any isFirst done) (before ++ Utf8.encode text) (125 :: rest)
      (insertAll json? ms done) := by
  have hcolon : ∀ l, Utf8.encode (':' :: l) = 58 :: Utf8.encode l := fun _ => rfl
  have hcomma : ∀ l, Utf8.encode (',' :: l) = 44 :: Utf8.encode l := fun _ => rfl
  induction h generalizing fuel isFirst before done with
  | @last b k b' b'' s e name a hb hk hb' hb'' hs he =>
    have hpos := (hvalues.opens hs).length_pos
    simp only [Utf8.encode_append, hcolon] at hfuel ⊢
    simp only [List.length_append, List.length_cons] at hfuel
    obtain ⟨fuel, rfl⟩ : ∃ n, fuel = n + 2 := ⟨fuel - 2, by omega⟩
    have hnone : ∀ done, Reads (members (fuel + 1) depth .any false done) (Utf8.encode e)
        (125 :: rest) (some done) := by
      intro done
      rw [members]
      refine (reads_hasMember_end_spaced false he rest).last ?_
      rw [if_neg Bool.false_ne_true]
      exact reads_pure done _
    rw [insertAll_cons]
    exact reads_spacedMember hvalues (hbefore hb) hk hb' hb'' hs
      (EndsValue.spaced (by rintro _ ⟨⟩; simp) he) (by omega) fun v => hnone _
  | @cons b k b' b'' s e more name a ms hb hk hb' hb'' hs he hmore ih =>
    simp only [Utf8.encode_append, hcolon, hcomma] at hfuel ⊢
    simp only [List.length_append, List.length_cons] at hfuel
    obtain ⟨fuel, rfl⟩ : ∃ n, fuel = n + 1 := ⟨fuel - 1, by omega⟩
    have hothers : ∀ done, Reads (members fuel depth .any false done)
        (Utf8.encode e ++ 44 :: Utf8.encode more) (125 :: rest) (insertAll json? ms done) := by
      intro done
      have hnext : Reads (members fuel depth .any false done)
          (Utf8.encode e ++ [44] ++ Utf8.encode more) (125 :: rest) (insertAll json? ms done) :=
        ih (fun hb rest => by
          rw [List.append_assoc]
          exact reads_hasMember_next_spaced he hb rest) (by omega)
      rwa [List.append_assoc] at hnext
    have hends : EndsValue (Utf8.encode e ++ 44 :: Utf8.encode more ++ 125 :: rest) := by
      rw [List.append_assoc]
      exact EndsValue.spaced (by rintro _ ⟨⟩; simp) he
    rw [insertAll_cons]
    exact reads_spacedMember hvalues (hbefore hb) hk hb' hb'' hs hends (by omega) fun v => hothers _

/-- An object is read as its members, put in one after the other. -/
theorem reads_objectOf (hvalues : ReadsValues isValue json? depth) {text : List Char}
    {ms : List (String × α)} (h : IsObject isValue text ms)
    (hfuel : 2 * (Utf8.encode text).length ≤ fuel) :
    Reads (value fuel (depth + 1) .any) (Utf8.encode text) rest
      ((insertAll json? ms []).map Json.object) := by
  cases h with
  | empty hb =>
    show Reads _ _ rest ((some []).map Json.object)
    refine reads_braces (fun fuel hfuel => ?_) hfuel
    obtain ⟨fuel, rfl⟩ : ∃ n, fuel = n + 1 := ⟨fuel - 1, by omega⟩
    rw [members]
    refine (reads_hasMember_end_spaced true hb rest).last ?_
    rw [if_neg Bool.false_ne_true]
    exact reads_pure [] _
  | members hs hnodup =>
    refine reads_braces (fun fuel hfuel => ?_) hfuel
    have hmembers : Reads (members fuel depth .any true []) ([] ++ Utf8.encode _) (125 :: rest) _ :=
      reads_spacedMembers hvalues hs (fun hb rest => reads_hasMember_first_spaced hb rest) hfuel
    exact hmembers

end

/-! ## Entries and texts -/

/-- An object begins with its brace. -/
theorem opens_objectOf {α : Type} {isValue : List Char → α → Prop} {s : List Char}
    {ms : List (String × α)} (h : IsObject isValue s ms) : Opens (Utf8.encode s) := by
  cases h with
  | empty | members => exact ⟨123, _, rfl, rfl, by decide⟩

/-- Literals are read as their values. -/
theorem readsValues_literal (depth : Nat) :
    ReadsValues IsLiteral ofLiteral? (depth + 1) where
  opens := opens_literal
  reads := reads_literalValue

/-- Entries are read as their values. -/
theorem readsValues_entry (depth : Nat) : ReadsValues IsEntry Entry.value? (depth + 2) where
  opens h := by
    cases h with
    | literal hs => exact opens_literal hs
    | object hs => exact opens_objectOf hs
  reads h hrest hfuel := by
    cases h with
    | literal hs => exact reads_literalValue hs hrest hfuel
    | object hs => exact reads_objectOf (readsValues_literal depth) hs hfuel

end Reader

/-- A value is all that a text is read as if nothing but white space stands behind it. -/
theorem toOption_parse {bytes text : List UInt8} {b : List Char} {result : Option Json}
    (hbytes : bytes = text ++ Utf8.encode b) (hb : IsSpace b)
    (h : Reader.Reads (Reader.value (2 * bytes.length + 4) 127 .any) text (Utf8.encode b ++ [])
      result) : (parse bytes).toOption = result := by
  have hnothing : ∀ rest : List UInt8, rest = [] → Reader.Starts rest := by
    rintro _ rfl _ ⟨⟩
  have hend : ∀ found : Json, Reader.Reads (do
      Reader.space
      if (← Reader.peek).isSome then Reader.failNext .trailingCharacters
      return found) (Utf8.encode b) [] (some found) := by
    intro found
    have hspace : Reader.Reads Reader.space [] [] (some ()) :=
      Reader.reads_space (hnothing [] rfl)
    have hbare : Reader.Reads (do
        Reader.space
        if (← Reader.peek).isSome then Reader.failNext .trailingCharacters
        return found) [] [] (some found) :=
      hspace.look ((Reader.reads_peek []).look fun c hc => ⟨c, rfl, hc⟩)
    exact hbare.spacedNil hb (hnothing _ rfl)
  have hresult := (h.bind fun found _ => hend found) (Cursor.start bytes)
    (hbytes.trans (List.append_nil _).symm)
  show (((Reader.value (2 * bytes.length + 4) 127 .any >>= fun found => do
    Reader.space
    if (← Reader.peek).isSome then Reader.failNext .trailingCharacters
    return found) (Cursor.start bytes)).map Prod.fst).toOption = result
  cases result with
  | none =>
    obtain ⟨e, he⟩ := hresult
    rw [he]
    rfl
  | some found =>
    obtain ⟨c, hok, -⟩ := hresult
    rw [hok]
    rfl

/-- A written document is read as the object of its entries, unless one of its numerals stands for
no value. -/
theorem parse_of_isDocument {text : List Char} {entries : List (String × Entry)}
    (h : IsDocument text entries) :
    (parse (Utf8.encode text)).toOption = (insertAll Entry.value? entries []).map .object := by
  cases h with
  | @object b s b' entries hb hs hb' =>
    have hbytes : Utf8.encode (b ++ (s ++ b')) =
        Utf8.encode b ++ Utf8.encode s ++ Utf8.encode b' := by
      rw [Utf8.encode_append, Utf8.encode_append, List.append_assoc]
    -- The object is only a part of the text that the fuel is meant for.
    obtain ⟨fuel, hfuel⟩ : ∃ n, n = 2 * (Utf8.encode (b ++ (s ++ b'))).length := ⟨_, rfl⟩
    have hlen : 2 * (Utf8.encode s).length ≤ fuel := by
      rw [hfuel, hbytes]
      simp only [List.length_append]
      omega
    have hends : Reader.EndsValue (Utf8.encode b' ++ []) :=
      Reader.EndsValue.spaced (by rintro _ ⟨⟩) hb'
    have hobject : Reader.Reads (Reader.value (fuel + 4) 127 .any) (Utf8.encode s)
        (Utf8.encode b' ++ []) ((insertAll Entry.value? entries []).map .object) :=
      Reader.reads_objectOf (Reader.readsValues_entry 124) hs (by omega)
    refine toOption_parse hbytes hb' ?_
    rw [← hfuel]
    exact Reader.reads_value_spaced hobject hb (Reader.opens_objectOf hs)

end MessageBroker.Json
