import MessageBroker.Json.Numeral
import MessageBroker.Proofs.Json.Reads

/-!
# Numerals are read back

A numeral without point and exponent is a sign and digits of which none stands behind a zero in
front. All digits are taken if 64 bits hold the number, signed or unsigned, and then it is read as
an exact integer; otherwise it is read as a double (`reads_whole`). Neither a digit nor a point nor
an exponent may follow (`EndsNumeral`). What follows a written value is a comma, a closing bracket
or nothing (`Closes`), so an integer that 64 bits hold is read back from its digits
(`reads_numeral`).
-/

namespace MessageBroker.Json

/-- Only a comma or a closing bracket follows, if anything does. -/
def Closes (rest : List UInt8) : Prop := ∀ byte ∈ rest.head?, byte = 44 ∨ byte = 93 ∨ byte = 125

/-- Nothing follows at the end of a text. -/
theorem closes_nil : Closes [] := fun _ h => nomatch h

/-- A numeral does not go on: no digit, point or mark of an exponent follows. -/
def EndsNumeral (rest : List UInt8) : Prop :=
  ∀ c ∈ rest.head?.map fun byte => Char.ofNat byte.toNat,
    c.isDigit = false ∧ c ≠ '.' ∧ c ≠ 'e' ∧ c ≠ 'E'

/-- Commas and closing brackets are not part of numerals. -/
theorem Closes.endsNumeral {rest : List UInt8} (h : Closes rest) : EndsNumeral rest := by
  intro c hc
  obtain ⟨byte, hbyte, rfl⟩ := Option.map_eq_some_iff.mp hc
  rcases h byte hbyte with rfl | rfl | rfl <;> decide

/-- Further digits do not make a number smaller. -/
theorem le_foldl_digits (digits : List Char) (n : Nat) :
    n ≤ digits.foldl (fun n c => n * 10 + Decimal.value c) n := by
  induction digits generalizing n with
  | nil => exact Nat.le_refl n
  | cons c digits ih =>
    have hnext := ih (n * 10 + Decimal.value c)
    rw [List.foldl_cons]
    omega

/-- All digits are taken if the number stays within the limit. -/
theorem takeDigits_eq {limit : Nat} {digits : List Char} {n : Nat}
    (h : digits.foldl (fun n c => n * 10 + Decimal.value c) n ≤ limit) :
    takeDigits limit n digits =
      (digits.foldl (fun n c => n * 10 + Decimal.value c) n, digits.length) := by
  induction digits generalizing n with
  | nil => rfl
  | cons c digits ih =>
    have hnext := le_foldl_digits digits (n * 10 + Decimal.value c)
    rw [List.foldl_cons] at h
    unfold takeDigits
    rw [if_neg (by omega), ih h]
    rfl

/-- Not all digits are taken if the number leaves the limit. -/
theorem takeDigits_lt {limit : Nat} {digits : List Char} {n : Nat} (hn : n ≤ limit)
    (h : limit < digits.foldl (fun n c => n * 10 + Decimal.value c) n) :
    (takeDigits limit n digits).2 < digits.length := by
  induction digits generalizing n with
  | nil => exact absurd h (Nat.not_lt.mpr hn)
  | cons c digits ih =>
    rw [List.foldl_cons] at h
    unfold takeDigits
    dsimp only
    split
    · exact Nat.succ_pos _
    · rename_i hle
      exact Nat.succ_lt_succ (ih (Nat.not_lt.mp hle) h)

/-- The digits of a whole number: at least one, and none behind a zero in front. -/
structure IsWhole (run : List Char) : Prop where
  ne_nil : run ≠ []
  isDigit : ∀ c ∈ run, c.isDigit = true
  zero : ∀ rest, run = '0' :: rest → rest = []

/-- Whether digits are those of a whole number is seen at the first of them. -/
theorem isWhole_iff (run : List Char) : IsWhole run ↔
    (Decimal.isNumeral run && (run.head? != some '0' || run.tail.isEmpty)) = true := by
  unfold Decimal.isNumeral
  simp only [Bool.and_eq_true, Bool.or_eq_true, Bool.not_eq_true', List.all_eq_true,
    List.isEmpty_eq_false_iff, List.isEmpty_iff, bne_iff_ne]
  constructor
  · rintro ⟨hne, hall, hzero⟩
    refine ⟨⟨hne, hall⟩, ?_⟩
    by_cases hhead : run.head? = some '0'
    · obtain ⟨rest, hrun⟩ := List.head?_eq_some_iff.mp hhead
      exact .inr (by rw [hrun]; exact hzero rest hrun)
    · exact .inl hhead
  · rintro ⟨⟨hne, hall⟩, hhead⟩
    refine ⟨hne, hall, ?_⟩
    rintro rest rfl
    exact hhead.resolve_left (absurd rfl)

instance (run : List Char) : Decidable (IsWhole run) := decidable_of_iff _ (isWhole_iff run).symm

/-- A number is written in the digits of a whole number. -/
theorem isWhole_natural (n : Nat) : IsWhole (Decimal.natural n) :=
  ⟨Decimal.natural_ne_nil n, fun _ => Decimal.isDigit_of_mem_natural,
    fun _ h => (Decimal.natural_of_head_zero h).2⟩

/-- Splits off a minus sign: whether there is one, and the rest. -/
def splitMinus : List Char → Bool × List Char
  | '-' :: rest => (true, rest)
  | s => (false, s)

/-- Digits have no minus sign before them. -/
theorem splitMinus_of_isWhole {run : List Char} (h : IsWhole run) :
    splitMinus run = (false, run) := by
  unfold splitMinus
  split
  · exact absurd (h.isDigit '-' List.mem_cons_self) (by decide)
  · rfl

/-- The number of a sign and digits: an exact integer if 64 bits hold it, signed or unsigned, and
otherwise a double, if it is in range of these: the leading digits that 64 bits hold, times a power
of ten. -/
def wholeNumber? (negative : Bool) (run : List Char) : Option Number :=
  let (m, taken) := takeDigits greatestWord 0 run
  if run.length - taken = 0 then some (Reader.whole negative m)
  else (scaled? m (run.length - taken : Nat)).map fun x =>
    .real (if negative then x.negate else x)

/-- A number that 64 bits hold has all its digits taken. -/
theorem wholeNumber?_eq {run : List Char} (h : Decimal.read run ≤ greatestWord) (negative : Bool) :
    wholeNumber? negative run = some (Reader.whole negative (Decimal.read run)) := by
  have htaken : takeDigits greatestWord 0 run = (Decimal.read run, run.length) := takeDigits_eq h
  unfold wholeNumber?
  rw [htaken]
  exact if_pos (Nat.sub_self _)

namespace Reader

variable {rest : List UInt8}

/-- The first digit of a number is seen in front of it. -/
theorem reads_peek_whole {run : List Char} (h : IsWhole run) (rest : List UInt8) :
    ∃ first others, run = first :: others ∧ first.isDigit = true ∧
      Reads peek [] (Utf8.encode run ++ rest) (some (some first)) := by
  obtain ⟨first, others, hdigits⟩ := List.exists_cons_of_ne_nil h.ne_nil
  have hfirst : first.isDigit = true := h.isDigit first (hdigits ▸ List.mem_cons_self)
  have hascii : first.toNat < 128 := by
    have hbounds := Decimal.toNat_of_isDigit hfirst
    omega
  have hhead : (Utf8.encode run ++ rest).head? = some (UInt8.ofNat first.toNat) := by
    rw [hdigits]
    show (String.utf8EncodeChar first ++ _ ++ rest).head? = _
    rw [Utf8.encodeChar_of_lt hascii]
    rfl
  have hpeek := reads_peek (Utf8.encode run ++ rest)
  rw [hhead, Option.map_some, Utf8.ofNat_toNat_ofNat hascii] at hpeek
  exact ⟨first, others, hdigits, hfirst, hpeek⟩

/-- A double, if it is in range. -/
theorem reads_real (negative : Bool) (significand : Nat) (exponent : Int) (rest : List UInt8) :
    Reads (real negative significand exponent) [] rest
      ((scaled? significand exponent).map fun x => .real (if negative then x.negate else x)) := by
  unfold real
  cases scaled? significand exponent with
  | some x => exact reads_pure _ rest
  | none => exact fun _ _ => ⟨_, rfl⟩

/-- The digits of a whole number are read as its magnitude. -/
theorem reads_magnitude (negative : Bool) {run : List Char} (hrun : IsWhole run)
    (hrest : EndsNumeral rest) :
    Reads (magnitude negative) (Utf8.encode run) rest (wholeNumber? negative run) := by
  obtain ⟨first, others, hdigits, hfirst, hpeek⟩ := reads_peek_whole hrun rest
  have htaken : Reads (if first = '0' then pass 1 *> pure ['0'] else digits)
      (Utf8.encode run) rest (some run) := by
    split
    · rename_i hzero
      obtain rfl := hrun.zero others (hzero ▸ hdigits)
      rw [hdigits, hzero]
      exact (reads_pass [48] rest).last (reads_pure _ _)
    · exact reads_digits hrun.isDigit fun byte hbyte =>
        (hrest _ (Option.map_eq_some_iff.mpr ⟨byte, hbyte, rfl⟩)).1
  have hend : Reads (if ((run.length - (takeDigits greatestWord 0 run).2 : Nat) : Int) = 0
      then return whole negative (takeDigits greatestWord 0 run).1
      else real negative (takeDigits greatestWord 0 run).1
        (run.length - (takeDigits greatestWord 0 run).2 : Nat)) [] rest
          (wholeNumber? negative run) := by
    unfold wholeNumber?
    dsimp only
    by_cases hdropped : run.length - (takeDigits greatestWord 0 run).2 = 0
    · rw [if_pos hdropped, if_pos (by omega)]
      exact reads_pure _ rest
    · rw [if_neg hdropped, if_neg (by omega)]
      exact reads_real negative _ _ rest
  have hnext := reads_peek rest
  unfold EndsNumeral at hrest
  unfold magnitude
  refine hpeek.look ?_
  simp only [hfirst, Bool.not_true, Bool.false_eq_true, if_false]
  refine htaken.last (hnext.look ?_)
  -- What follows belongs to no numeral, so the digits are all of it.
  generalize rest.head?.map (fun byte => Char.ofNat byte.toNat) = next at hnext hrest ⊢
  split
  · rename_i d
    rw [if_neg (by simp [(hrest d rfl).1])]
    refine hnext.look ?_
    split
    · exact absurd rfl (hrest '.' ‹_›).2.1
    · exact absurd rfl (hrest 'e' ‹_›).2.2.1
    · exact absurd rfl (hrest 'E' ‹_›).2.2.2
    · exact hend
  · refine hnext.look ?_
    split
    · exact absurd rfl (hrest '.' rfl).2.1
    · exact absurd rfl (hrest 'e' rfl).2.2.1
    · exact absurd rfl (hrest 'E' rfl).2.2.2
    · exact hend

/-- A sign and the digits of a whole number are read as the number that they write. -/
theorem reads_whole {s : List Char} (hs : IsWhole (splitMinus s).2) (hrest : EndsNumeral rest) :
    Reads numeral (Utf8.encode s) rest (wholeNumber? (splitMinus s).1 (splitMinus s).2) := by
  unfold splitMinus at hs ⊢
  split at hs
  · rename_i digits
    refine (reads_peek (45 :: (Utf8.encode digits ++ rest))).look ?_
    exact (reads_pass [45] _).next (reads_magnitude true hs hrest)
  · obtain ⟨first, others, -, hfirst, hpeek⟩ := reads_peek_whole hs rest
    unfold numeral
    refine hpeek.look ?_
    split
    · rename_i heq
      rw [Option.some.inj heq] at hfirst
      cases hfirst
    · exact reads_magnitude false hs hrest

/-- An integer that 64 bits hold, signed or unsigned, is read back. -/
theorem reads_numeral {i : Int} (h : -9223372036854775808 ≤ i ∧ i ≤ greatestWord)
    (hrest : Closes rest) :
    Reads numeral (Utf8.encode (Decimal.integer i)) rest (some (.integer i)) := by
  cases i with
  | ofNat n =>
    have hn : n ≤ greatestWord := Int.ofNat_le.mp h.2
    have hwhole := isWhole_natural n
    have hreads := reads_whole (s := Decimal.natural n)
      ((splitMinus_of_isWhole hwhole).symm ▸ hwhole) hrest.endsNumeral
    rwa [splitMinus_of_isWhole hwhole, wholeNumber?_eq ((Decimal.read_natural n).symm ▸ hn),
      Decimal.read_natural] at hreads
  | negSucc n =>
    have hn : n + 1 ≤ greatestWord := by
      unfold greatestWord
      omega
    have hwhole : whole true (n + 1) = .integer (Int.negSucc n) := by
      unfold whole
      rw [if_neg (by decide), if_neg (Nat.succ_ne_zero n), if_neg (by omega)]
      rfl
    have hreads := reads_whole (s := '-' :: Decimal.natural (n + 1)) (isWhole_natural (n + 1))
      hrest.endsNumeral
    rwa [show (splitMinus ('-' :: Decimal.natural (n + 1))).2 = Decimal.natural (n + 1) from rfl,
      wholeNumber?_eq ((Decimal.read_natural (n + 1)).symm ▸ hn), Decimal.read_natural,
      show (splitMinus ('-' :: Decimal.natural (n + 1))).1 = true from rfl, hwhole] at hreads

end Reader

end MessageBroker.Json
