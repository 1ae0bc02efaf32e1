import MessageBroker.Json.Literal
import MessageBroker.Json.Writer
import MessageBroker.Proofs.Json.Reads

/-!
# String literals are read

`Spells` says what may stand between the quotes of a string, and for which characters: most of them
stand for themselves, others are escaped by a letter, or by their number. A literal is read byte by
byte, and what has been read so far grows by the UTF-8 form of each character
(`reads_spelledBytes`, by induction on the spelling): no byte of that form can be taken for a quote,
a backslash or a control character. So the whole is the UTF-8 form of a string, and reads as that
string (`reads_spelled`). The writer spells each string in one of these ways (`spells_escaped`), so
a written string is read back (`reads_literal`).
-/

namespace MessageBroker.Json

/-! ## Spelling -/

/-- The letters that stand behind a backslash, and what they stand for. -/
def escapes : List (Char × Char) :=
  [('"', '"'), ('\\', '\\'), ('/', '/'), ('b', '\x08'), ('f', '\x0c'), ('n', '\n'), ('r', '\r'),
    ('t', '\t')]

/-- What stands between quotes, and the characters that it stands for. Characters beyond 16 bits are
escaped by two numbers. -/
inductive Spells : List Char → List Char → Prop
  | nil : Spells [] []
  | plain {c : Char} {s t : List Char} (hc : 0x20 ≤ c.toNat) (hquote : c ≠ '"') (hslash : c ≠ '\\')
      (hs : Spells s t) : Spells (c :: s) (c :: t)
  | escape {letter c : Char} {s t : List Char} (hletter : (letter, c) ∈ escapes)
      (hs : Spells s t) : Spells ('\\' :: letter :: s) (c :: t)
  | code {c : Char} {digits s t : List Char} (hlen : digits.length = 4)
      (hcode : hexNumber? digits = some c.toNat) (hs : Spells s t) :
      Spells ('\\' :: 'u' :: (digits ++ s)) (c :: t)
  | pair {digits digits' s t : List Char} {n m : Nat} (hlen : digits.length = 4)
      (hcode : hexNumber? digits = some n) (hleading : isLeading n = true)
      (hlen' : digits'.length = 4) (hcode' : hexNumber? digits' = some m)
      (htrailing : isTrailing m = true) (hs : Spells s t) :
      Spells ('\\' :: 'u' :: (digits ++ '\\' :: 'u' :: (digits' ++ s))) (ofSurrogates n m :: t)

/-- Hexadecimal digits are ASCII. -/
theorem lt_of_hexNumber {digits : List Char} {n : Nat} (h : hexNumber? digits = some n) :
    ∀ c ∈ digits, c.toNat < 128 := by
  have hfold : ∀ (digits : List Char) (start n : Nat),
      digits.foldlM (fun n c => (hexValue? c).map (n * 16 + ·)) start = some n →
      ∀ c ∈ digits, c.toNat < 128 := by
    intro digits
    induction digits with
    | nil => exact nofun
    | cons c digits ih =>
      intro start n h
      rw [List.foldlM_cons] at h
      obtain ⟨next, hnext, hrest⟩ := Option.bind_eq_some_iff.mp h
      obtain ⟨value, hvalue, -⟩ := Option.map_eq_some_iff.mp hnext
      refine List.forall_mem_cons.mpr ⟨?_, ih next n hrest⟩
      unfold hexValue? at hvalue
      split at hvalue
      · rename_i hdigit
        have hbounds := Decimal.toNat_of_isDigit hdigit
        omega
      · split at hvalue
        · rename_i hletter
          have hle : c.toNat ≤ 'f'.toNat := hletter.2
          have hf : 'f'.toNat = 102 := rfl
          omega
        · split at hvalue
          · rename_i hletter
            have hle : c.toNat ≤ 'F'.toNat := hletter.2
            have hf : 'F'.toNat = 70 := rfl
            omega
          · cases hvalue
  exact hfold digits 0 n h

/-- The number of a character is no half of a pair. -/
theorem not_surrogate (c : Char) : isLeading c.toNat = false ∧ isTrailing c.toNat = false := by
  have hvalid : c.toNat < 0xd800 ∨ 0xdfff < c.toNat ∧ c.toNat < 0x110000 := c.valid
  unfold isLeading isTrailing
  simp only [Bool.and_eq_false_iff, decide_eq_false_iff_not]
  omega

namespace Reader

variable {rest text done : List UInt8} {fuel : Nat}

/-! ## Escapes -/

/-- The next character of a literal stays where it is. -/
theorem reads_within (byte : UInt8) (rest : List UInt8) :
    Reads within [] (byte :: rest) (some (Char.ofNat byte.toNat)) :=
  (reads_peek _).look (reads_pure _ _)

/-- Four hexadecimal digits are taken for a number. -/
theorem reads_hexQuad {quad : List Char} (hlen : quad.length = 4) {n : Nat}
    (h : hexNumber? quad = some n) (rest : List UInt8) :
    Reads hexQuad (Utf8.encode quad) rest (some n) := by
  have hascii := lt_of_hexNumber h
  have hsize : (Utf8.encode quad).length = 4 := by
    rw [Utf8.encode_of_lt hascii, List.length_map, hlen]
  have htake : (Utf8.encode quad ++ rest).take 4 = Utf8.encode quad := by
    rw [← hsize, List.take_left]
  have hchars : (Utf8.encode quad).map (fun byte => Char.ofNat byte.toNat) = quad :=
    Utf8.map_encode_of_lt hascii
  refine (reads_unread _).look ?_
  simp only [htake]
  refine (reads_pass _ _).last ?_
  rw [if_neg (by omega), hchars, h]
  exact reads_pure n rest

/-- A letter behind a backslash stands for a character. -/
theorem reads_escape_letter {letter c : Char} (h : (letter, c) ∈ escapes) (rest : List UInt8) :
    Reads escape (Utf8.encode [letter]) rest (some c) := by
  have hall : ∀ e ∈ escapes, e.1.toNat < 128 ∧ e.1 ≠ 'u' ∧ escapeOf? e.1 = some e.2 := by decide
  obtain ⟨hascii, hne, hof⟩ := hall _ h
  rw [Utf8.encode_of_lt (by simpa using hascii)]
  refine (reads_within _ _).look ?_
  rw [Utf8.ofNat_toNat_ofNat hascii]
  refine (reads_pass [_] _).last ?_
  rw [if_neg hne, hof]
  exact reads_pure c rest

/-- A character of 16 bits is escaped by its number. -/
theorem reads_escape_code {c : Char} {digits : List Char} (hlen : digits.length = 4)
    (h : hexNumber? digits = some c.toNat) (rest : List UInt8) :
    Reads escape (Utf8.encode ('u' :: digits)) rest (some c) := by
  have hcode : Reads unicodeEscape (Utf8.encode digits) rest (some c) := by
    refine (reads_hexQuad hlen h rest).last ?_
    rw [(not_surrogate c).1, (not_surrogate c).2, if_neg Bool.false_ne_true,
      if_neg Bool.false_ne_true, Char.ofNat_toNat]
    exact reads_pure c rest
  refine (reads_within _ _).look ?_
  exact (reads_pass [_] _).next hcode

/-- A character beyond 16 bits is escaped by the two halves of a pair. -/
theorem reads_escape_pair {digits digits' : List Char} {n m : Nat} (hlen : digits.length = 4)
    (hcode : hexNumber? digits = some n) (hleading : isLeading n = true)
    (hlen' : digits'.length = 4) (hcode' : hexNumber? digits' = some m)
    (htrailing : isTrailing m = true) (rest : List UInt8) :
    Reads escape (Utf8.encode ('u' :: (digits ++ '\\' :: 'u' :: digits'))) rest
      (some (ofSurrogates n m)) := by
  have hfirst : isTrailing n = false := by
    unfold isLeading at hleading
    unfold isTrailing
    simp only [Bool.and_eq_true, decide_eq_true_eq] at hleading
    simp only [Bool.and_eq_false_iff, decide_eq_false_iff_not]
    omega
  have hcontinuing : ∀ {byte : UInt8} {expected : Char} (rest : List UInt8),
      Char.ofNat byte.toNat = expected → Reads (continuing expected) [byte] rest (some ()) := by
    intro byte expected rest hchar
    refine (reads_within byte rest).look ((reads_pass [byte] rest).last ?_)
    rw [if_neg (not_not_intro hchar)]
    exact reads_pure () rest
  have hpair : Reads unicodeEscape
      (Utf8.encode digits ++ ([92] ++ ([117] ++ Utf8.encode digits'))) rest
        (some (ofSurrogates n m)) := by
    refine (reads_hexQuad hlen hcode _).next ?_
    rw [hfirst, hleading, if_neg Bool.false_ne_true, if_pos rfl]
    have hslash : Reads (continuing '\\') [92] ([117] ++ Utf8.encode digits' ++ rest) (some ()) :=
      hcontinuing _ rfl
    have hletter : Reads (continuing 'u') [117] (Utf8.encode digits' ++ rest) (some ()) :=
      hcontinuing _ rfl
    refine hslash.next (hletter.next ((reads_hexQuad hlen' hcode' rest).last ?_))
    rw [if_pos htrailing]
    exact reads_pure _ rest
  have hbytes : Utf8.encode ('u' :: (digits ++ '\\' :: 'u' :: digits')) =
      [117] ++ (Utf8.encode digits ++ ([92] ++ ([117] ++ Utf8.encode digits'))) := by
    show [117] ++ Utf8.encode (digits ++ _) = _
    rw [Utf8.encode_append]
    rfl
  rw [hbytes]
  refine (reads_within _ _).look ?_
  exact (reads_pass [_] _).next hpair

/-! ## Characters -/

/-- A byte that is neither a quote nor a backslash nor a control character stands for itself. -/
theorem reads_plain {bytes : List UInt8}
    (h : ∀ byte ∈ bytes, 0x20 ≤ byte.toNat ∧ byte.toNat ≠ 34 ∧ byte.toNat ≠ 92)
    {result : Option (List UInt8)}
    (hnext : Reads (literalBytes fuel (bytes.reverse ++ done)) text rest result) :
    Reads (literalBytes (fuel + bytes.length) done) (bytes ++ text) rest result := by
  induction bytes generalizing done with
  | nil => exact hnext
  | cons byte bytes ih =>
    obtain ⟨hcontrol, hquote, hbackslash⟩ := h byte List.mem_cons_self
    have hchar := toNat_ofNat_byte byte
    have hne : ∀ c : Char, c.toNat ≠ byte.toNat → Char.ofNat byte.toNat ≠ c := by
      rintro c hc rfl
      exact hc hchar
    rw [List.reverse_cons, List.append_assoc] at hnext
    have hrest := ih (fun x hx => h x (List.mem_cons_of_mem _ hx)) hnext
    refine (reads_within byte _).look ?_
    rw [if_neg (hne '"' (Ne.symm hquote)), if_neg (hne '\\' (Ne.symm hbackslash)), hchar,
      if_neg (Nat.not_lt.mpr hcontrol), UInt8.ofNat_toNat]
    exact (reads_pass [byte] _).next hrest

/-- A character that is no quote, no backslash and no control character stands for itself. -/
theorem reads_plain_char {c : Char} (hplain : 0x20 ≤ c.toNat) (hquote : c ≠ '"')
    (hslash : c ≠ '\\') {result : Option (List UInt8)}
    (hnext : Reads (literalBytes fuel ((String.utf8EncodeChar c).reverse ++ done)) text rest
      result) :
    Reads (literalBytes (fuel + (String.utf8EncodeChar c).length) done)
      (String.utf8EncodeChar c ++ text) rest result := by
  refine reads_plain (fun byte hbyte => ?_) hnext
  rcases Nat.lt_or_ge c.toNat 128 with hascii | hwide
  · rw [Utf8.encodeChar_of_lt hascii, List.mem_singleton] at hbyte
    have hbyte' : byte.toNat = c.toNat := by
      rw [hbyte, UInt8.toNat_ofNat']
      omega
    have hne : ∀ x : Char, c ≠ x → byte.toNat ≠ x.toNat := fun x hx he =>
      hx (Char.toNat_inj.mp (hbyte'.symm.trans he))
    exact ⟨hbyte' ▸ hplain, hne '"' hquote, hne '\\' hslash⟩
  · -- No byte of a longer character is a quote, a backslash or a control character.
    have hhigh := Utf8.le_of_mem_encodeChar hwide hbyte
    omega

/-! ## Literals -/

/-- One character more has been read. -/
theorem reverse_append_encode (done : List UInt8) (c : Char) (t : List Char) :
    done.reverse ++ Utf8.encode (c :: t) =
      ((String.utf8EncodeChar c).reverse ++ done).reverse ++ Utf8.encode t := by
  rw [List.reverse_append, List.reverse_reverse, List.append_assoc]
  rfl

/-- An escape is read as the character that it names, in front of the rest of a literal. -/
theorem reads_escaping {code s t : List Char} {c : Char}
    (hcode : Reads escape (Utf8.encode code) (Utf8.encode s ++ [34] ++ rest) (some c))
    (hfuel : (Utf8.encode ('\\' :: (code ++ s))).length + 1 ≤ fuel)
    (hnext : ∀ fuel, (Utf8.encode s).length + 1 ≤ fuel →
      Reads (literalBytes fuel ((String.utf8EncodeChar c).reverse ++ done)) (Utf8.encode s ++ [34])
        rest (some (((String.utf8EncodeChar c).reverse ++ done).reverse ++ Utf8.encode t))) :
    Reads (literalBytes fuel done) (Utf8.encode ('\\' :: (code ++ s)) ++ [34]) rest
      (some (done.reverse ++ Utf8.encode (c :: t))) := by
  have hbytes : Utf8.encode ('\\' :: (code ++ s)) = 92 :: (Utf8.encode code ++ Utf8.encode s) := by
    show 92 :: Utf8.encode (code ++ s) = _
    rw [Utf8.encode_append]
  rw [hbytes, List.length_cons, List.length_append] at hfuel
  obtain ⟨fuel, rfl⟩ : ∃ n, fuel = n + 1 := ⟨fuel - 1, by omega⟩
  rw [hbytes, reverse_append_encode, List.cons_append, List.append_assoc]
  refine (reads_within 92 _).look ?_
  exact (reads_pass [92] _).next (hcode.next (hnext fuel (by omega)))

/-- What is spelled between quotes is read up to the closing quote, as the UTF-8 form of its
characters. -/
theorem reads_spelledBytes {s t : List Char} (h : Spells s t)
    (hfuel : (Utf8.encode s).length + 1 ≤ fuel) :
    Reads (literalBytes fuel done) (Utf8.encode s ++ [34]) rest
      (some (done.reverse ++ Utf8.encode t)) := by
  induction h generalizing fuel done with
  | nil =>
    obtain ⟨fuel, rfl⟩ : ∃ n, fuel = n + 1 := ⟨fuel - 1, by omega⟩
    have hempty : done.reverse ++ Utf8.encode [] = done.reverse := List.append_nil _
    rw [hempty]
    refine (reads_within 34 _).look ?_
    exact (reads_pass [34] _).last (reads_pure _ _)
  | @plain c s t hc hquote hslash hs ih =>
    have hbytes : Utf8.encode (c :: s) = String.utf8EncodeChar c ++ Utf8.encode s := rfl
    rw [hbytes, List.length_append] at hfuel
    obtain ⟨fuel, rfl⟩ : ∃ n, fuel = n + (String.utf8EncodeChar c).length :=
      ⟨fuel - (String.utf8EncodeChar c).length, by omega⟩
    rw [hbytes, reverse_append_encode, List.append_assoc]
    exact reads_plain_char hc hquote hslash (ih (by omega))
  | @escape letter c s t hletter hs ih =>
    exact reads_escaping (reads_escape_letter hletter _) hfuel fun fuel hle => ih hle
  | @code c digits s t hlen hcode hs ih =>
    exact reads_escaping (reads_escape_code hlen hcode _) hfuel fun fuel hle => ih hle
  | @pair digits digits' s t n m hlen hcode hleading hlen' hcode' htrailing hs ih =>
    have htext : ('u' :: (digits ++ '\\' :: 'u' :: (digits' ++ s))) =
        'u' :: (digits ++ '\\' :: 'u' :: digits') ++ s := by
      simp only [List.cons_append, List.append_assoc]
    rw [htext] at hfuel ⊢
    exact reads_escaping (reads_escape_pair hlen hcode hleading hlen' hcode' htrailing _) hfuel
      fun fuel hle => ih hle

/-- What is spelled between quotes is read as the string of its characters, behind its opening
quote. -/
theorem reads_spelled {s t : List Char} (h : Spells s t) (rest : List UInt8) :
    Reads literal (Utf8.encode s ++ [34]) rest (some (String.ofList t)) := by
  intro c hc
  have hlen : (Utf8.encode s).length + 1 ≤ c.rest.length + 1 := by
    rw [hc, List.length_append, List.length_append]
    omega
  have hread : Reads (literalBytes (c.rest.length + 1) []) _ rest (some (Utf8.encode t)) :=
    reads_spelledBytes h hlen
  obtain ⟨c', hok, hc'⟩ := hread c hc
  have hbytes : Utf8.toString? (Utf8.encode t) = some (String.ofList t) := by
    rw [← Utf8.ofString_ofList]
    exact Utf8.toString?_ofString _
  have hget : (get : Reader Cursor) c = .ok (c, c) := rfl
  unfold literal
  rw [bind_ok hget, bind_ok hok, hbytes]
  exact ⟨c', rfl, hc'⟩

end Reader

/-! ## Written strings -/

/-- A character is written in one of the spellings of it. -/
theorem spells_escaped (s : List Char) : Spells (s.flatMap escaped) s := by
  have hnumber : ∀ n < 0x20, hexNumber? ['0', '0', Nat.digitChar (n / 16), Nat.digitChar (n % 16)] =
      some n := by decide
  induction s with
  | nil => exact .nil
  | cons c s ih =>
    rw [List.flatMap_cons]
    unfold escaped
    split
    · exact .escape (by decide) ih
    · exact .escape (by decide) ih
    · exact .escape (by decide) ih
    · exact .escape (by decide) ih
    · exact .escape (by decide) ih
    · exact .escape (by decide) ih
    · exact .escape (by decide) ih
    · rename_i hquote hslash _ _ _ _ _
      split
      · rename_i hcontrol
        exact .code rfl (hnumber c.toNat hcontrol) ih
      · rename_i hplain
        exact .plain (Nat.le_of_not_lt hplain) hquote hslash ih

/-- A written string is read back, behind its opening quote. -/
theorem Reader.reads_literal (s : String) (rest : List UInt8) :
    Reads literal (Utf8.encode (s.toList.flatMap escaped) ++ [34]) rest (some s) := by
  have hread := reads_spelled (spells_escaped s.toList) rest
  rwa [String.ofList_toList] at hread

end MessageBroker.Json
