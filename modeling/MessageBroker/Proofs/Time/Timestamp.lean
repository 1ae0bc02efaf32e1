import MessageBroker.Proofs.Numeric.Decimal
import MessageBroker.Proofs.Time.Calendar
import MessageBroker.Time.Timestamp

/-!
# Written instants are read back

What the writer puts into a timestamp is read back piece by piece: each lemma here says what one
reader does with a text that begins with the piece that it is for. `read_written` puts them
together, for every instant of the calendar, those in its leap seconds included; the date goes
through its day number and back (`Date.dayNumber_ofDayNumber`). What is read of any text is an
instant of the calendar (`onCalendar_of_read`). One with a leap second elsewhere has the text of an
instant in the next second, and is read as that one (`Instant.carried`).
-/

namespace MessageBroker.Instant

open Text (isBlank trimLeft)

/-- The instant is outside leap seconds, or in one of the calendar's, at the end of a minute. -/
def OnCalendar (t : Instant) : Prop := t.InLeapSecond → t.seconds % 60 = 59

instance (t : Instant) : Decidable t.OnCalendar := inferInstanceAs (Decidable (_ → _))

/-- The instant with a leap second that is not the calendar's carried over to the next second. -/
def carried (t : Instant) : Instant :=
  if h : t.InLeapSecond ∧ t.seconds % 60 ≠ 59 then
    { seconds := t.seconds + 1
      fraction := t.fraction - 1000000000
      first_le := Int.le_trans t.first_le (Int.le_add_one (Int.le_refl _))
      le_last := by
        have hlast := t.le_last
        omega
      fraction_lt := Nat.lt_of_le_of_lt (Nat.sub_le _ _) t.fraction_lt }
  else t

/-- An instant of the calendar stays as it is. -/
theorem carried_eq {t : Instant} (h : t.OnCalendar) : t.carried = t :=
  dif_neg fun hcarry => hcarry.2 (h hcarry.1)

/-- What is carried over lies outside leap seconds. -/
theorem onCalendar_carried (t : Instant) : t.carried.OnCalendar := by
  by_cases h : t.InLeapSecond ∧ t.seconds % 60 ≠ 59
  · have hlt := t.fraction_lt
    have hless : ¬ t.carried.InLeapSecond := by
      unfold carried
      rw [dif_pos h]
      exact Nat.not_le.mpr (show t.fraction - 1000000000 < 1000000000 by omega)
    exact fun hleap => absurd hleap hless
  · unfold carried
    rw [dif_neg h]
    exact fun hleap => Decidable.not_not.mp fun hsecond => h ⟨hleap, hsecond⟩

/-- Only an instant of the calendar stays as it is. -/
theorem carried_eq_iff (t : Instant) : t.carried = t ↔ t.OnCalendar :=
  ⟨fun h => h ▸ t.onCalendar_carried, carried_eq⟩

/-- A reader goes on where another one stopped. -/
theorem bind_ok {α β : Type} {p : Reader α} {f : α → Reader β} {s s' : List Char} {a : α}
    (h : p s = .ok (a, s')) : (p >>= f) s = f a s' := by
  show (p s).bind _ = _
  rw [h]
  rfl

/-! ## Pieces -/

/-- Digits are not blank. -/
theorem not_isBlank_of_isDigit {c : Char} (h : c.isDigit = true) : isBlank c = false := by
  have hbounds := Decimal.toNat_of_isDigit h
  unfold isBlank
  simp only [Bool.or_eq_false_iff, Bool.and_eq_false_iff, decide_eq_false_iff_not]
  omega

/-- Where no blank stands, there is nothing to skip. -/
theorem skipBlanks_eq {s : List Char} (h : ∀ c ∈ s.head?, isBlank c = false) :
    skipBlanks s = .ok ((), s) := by
  have hsame : trimLeft s = s := by
    unfold trimLeft
    cases s with
    | nil => rfl
    | cons c rest => rw [List.dropWhile_cons_of_neg (by simp [h c rfl])]
  show Except.ok ((), trimLeft s) = _
  rw [hsame]

section Digits

variable {digits : List Char} (hdigits : ∀ c ∈ digits, c.isDigit = true) (hne : digits ≠ [])
include hdigits hne

/-- A text that begins with digits does not begin with a blank. -/
theorem not_isBlank_of_digits (rest : List Char) :
    ∀ c ∈ (digits ++ rest).head?, isBlank c = false := by
  obtain ⟨first, others, rfl⟩ := List.exists_cons_of_ne_nil hne
  rintro c ⟨⟩
  exact not_isBlank_of_isDigit (hdigits first List.mem_cons_self)

/-- A number is read from its digits, if there are not more of them than the width allows, and no
digit follows that it allows too. -/
theorem readNumber_digits {width : Option Nat} {rest : List Char}
    (hfits : ∀ n ∈ width, digits.length ≤ n)
    (hrest : (∀ n ∈ width, digits.length < n) → ∀ c ∈ rest.head?, c.isDigit = false)
    (hle : Decimal.read digits ≤ 9223372036854775807) :
    readNumber width (digits ++ rest) = .ok (Decimal.read digits, rest) := by
  have hnonempty : (digits ++ rest).isEmpty = false ∧ digits.isEmpty = false := by
    obtain ⟨first, others, rfl⟩ := List.exists_cons_of_ne_nil hne
    exact ⟨rfl, rfl⟩
  unfold readNumber
  cases width with
  | none =>
    have hwindow := Decimal.takeWhile_digits hdigits (hrest fun _ h => nomatch h)
    simp only [hwindow, hnonempty, Bool.false_eq_true, if_false]
    rw [if_neg (Nat.not_lt.mpr hle), List.drop_left]
  | some n =>
    have hlen : digits.length ≤ n := hfits n rfl
    have hwindow : ((digits ++ rest).take n).takeWhile Char.isDigit = digits := by
      rw [List.take_append, List.take_of_length_le hlen]
      refine Decimal.takeWhile_digits hdigits fun c hc => ?_
      rw [List.head?_take] at hc
      split at hc
      · cases hc
      · refine hrest ?_ c hc
        rintro m ⟨⟩
        omega
    simp only [hwindow, hnonempty, Bool.false_eq_true, if_false]
    rw [if_neg (Nat.not_lt.mpr hle), List.drop_left]

/-- A number is read from as many digits as the width says, whatever follows. -/
theorem readNumber_width (rest : List Char) (hle : Decimal.read digits ≤ 9223372036854775807) :
    readNumber (some digits.length) (digits ++ rest) = .ok (Decimal.read digits, rest) := by
  refine readNumber_digits hdigits hne ?_ (fun hless => ?_) hle
  · rintro n ⟨⟩
    exact Nat.le_refl _
  · exact absurd (hless _ rfl) (Nat.lt_irrefl _)

end Digits

/-- Two digits within bounds are read as a number. -/
theorem readField_fixed {least greatest n : Nat} (hn : least ≤ n ∧ n ≤ greatest)
    (hlt : n < 100) (rest : List Char) :
    readField least greatest (Decimal.fixed 2 n ++ rest) = .ok (n, rest) := by
  have hdigits : ∀ c ∈ Decimal.fixed 2 n, c.isDigit = true :=
    fun c hc => Decimal.isDigit_of_mem_fixed hc
  have hne : Decimal.fixed 2 n ≠ [] :=
    List.ne_nil_of_length_eq_add_one (Decimal.length_fixed 2 n)
  have hread : Decimal.read (Decimal.fixed 2 n) = n := Decimal.read_fixed_of_lt hlt
  have hnumber := readNumber_width hdigits hne rest (by omega)
  rw [Decimal.length_fixed] at hnumber
  unfold readField
  rw [bind_ok (skipBlanks_eq (not_isBlank_of_digits hdigits hne rest)), bind_ok hnumber, hread,
    if_pos hn]
  rfl

/-- One of the characters that are allowed is taken. -/
theorem readMark_cons {allowed : List Char} {c : Char} (h : c ∈ allowed) (rest : List Char) :
    readMark allowed (c :: rest) = .ok ((), rest) := by
  unfold readMark
  exact if_pos h

/-- A separator is taken. -/
theorem readSeparator_cons {mark : Char} (h : isBlank mark = false) (rest : List Char) :
    readSeparator mark (mark :: rest) = .ok ((), rest) := by
  unfold readSeparator
  rw [bind_ok (skipBlanks_eq (by rintro c ⟨⟩; exact h))]
  exact readMark_cons List.mem_cons_self rest

/-- A year of four digits is read. -/
theorem readYear_fixed {n : Nat} (h : n ≤ 9999) (rest : List Char) :
    readYear (Decimal.fixed 4 n ++ rest) = .ok (n, rest) := by
  have hdigits : ∀ c ∈ Decimal.fixed 4 n, c.isDigit = true :=
    fun c hc => Decimal.isDigit_of_mem_fixed hc
  have hne : Decimal.fixed 4 n ≠ [] :=
    List.ne_nil_of_length_eq_add_one (Decimal.length_fixed 4 n)
  have hread : Decimal.read (Decimal.fixed 4 n) = n :=
    Decimal.read_fixed_of_lt (by show n < 10000; omega)
  have hnumber := readNumber_width hdigits hne rest (by omega)
  rw [Decimal.length_fixed] at hnumber
  have hsign : readSign (Decimal.fixed 4 n ++ rest) = .ok (none, Decimal.fixed 4 n ++ rest) := by
    obtain ⟨first, others, hfirst⟩ := List.exists_cons_of_ne_nil hne
    have hdigit : first.isDigit = true := hdigits first (hfirst ▸ List.mem_cons_self)
    rw [hfirst]
    unfold readSign
    split
    · rename_i heq
      obtain ⟨rfl, -⟩ := List.cons.inj heq
      cases hdigit
    · rename_i heq
      obtain ⟨rfl, -⟩ := List.cons.inj heq
      cases hdigit
    · rfl
  unfold readYear
  rw [bind_ok (skipBlanks_eq (not_isBlank_of_digits hdigits hne _)), bind_ok hsign]
  show (readNumber (some 4) >>= _) _ = _
  rw [bind_ok hnumber, hread]
  simp only [Option.getD_none, Int.one_mul]
  rw [if_pos (by omega)]
  rfl

/-- A year behind its sign is read, as long as 32 bits hold it. -/
theorem readYear_signed (sign : Char) {factor : Int} (hblank : isBlank sign = false)
    (hsign : ∀ s, readSign (sign :: s) = .ok (some factor, s)) {n : Nat}
    (h : -2147483648 ≤ factor * n ∧ factor * n ≤ 2147483647) (hlt : n ≤ 2147483648)
    {rest : List Char} (hrest : ∀ c ∈ rest.head?, c.isDigit = false) :
    readYear (sign :: (Decimal.padded 4 n ++ rest)) = .ok (factor * n, rest) := by
  have hdigits : ∀ c ∈ Decimal.padded 4 n, c.isDigit = true :=
    fun c hc => Decimal.isDigit_of_mem_padded 4 n hc
  have hread := Decimal.read_padded 4 n
  have hnumber : readNumber none (Decimal.padded 4 n ++ rest) = _ :=
    readNumber_digits hdigits (Decimal.padded_ne_nil 3 n) (fun _ hw => nomatch hw) (fun _ => hrest)
      (by omega)
  have hhead : ∀ c ∈ (sign :: (Decimal.padded 4 n ++ rest)).head?, isBlank c = false := by
    rintro c ⟨⟩
    exact hblank
  unfold readYear
  rw [bind_ok (skipBlanks_eq hhead), bind_ok (hsign _)]
  show (readNumber none >>= _) _ = _
  rw [bind_ok hnumber, hread]
  simp only [Option.getD_some]
  rw [if_pos h]
  rfl

/-- A year of the time line is read, up to the separator behind it. -/
theorem readYear_written {year : Int} (h : -262143 ≤ year ∧ year ≤ 262142) (rest : List Char) :
    readYear (writtenYear year ++ '-' :: rest) = .ok (year, '-' :: rest) := by
  have hstop : ∀ c ∈ ('-' :: rest).head?, c.isDigit = false := by
    rintro c ⟨⟩
    rfl
  unfold writtenYear
  split
  · have hyear : ((year.toNat : Nat) : Int) = year := by omega
    rw [readYear_fixed (by omega), hyear]
  · by_cases hneg : year < 0
    · have hyear : -1 * (year.natAbs : Int) = year := by omega
      have hread := readYear_signed '-' rfl (fun s => rfl) (n := year.natAbs)
        (by omega) (by omega) hstop
      rw [if_pos hneg, List.cons_append, hread, hyear]
    · have hyear : 1 * (year.natAbs : Int) = year := by omega
      have hread := readYear_signed '+' rfl (fun s => rfl) (n := year.natAbs)
        (by omega) (by omega) hstop
      rw [if_neg hneg, List.cons_append, hread, hyear]

/-- The digits behind a point are read as nanoseconds. -/
theorem readFraction_digits {width n : Nat} (hwidth : 0 < width ∧ width ≤ 9)
    (hn : n < Nat.pow 10 width) {rest : List Char} (hrest : ∀ c ∈ rest.head?, c.isDigit = false) :
    readFraction ('.' :: (Decimal.fixed width n ++ rest)) =
      .ok (n * Nat.pow 10 (9 - width), rest) := by
  have hdigits : ∀ c ∈ Decimal.fixed width n, c.isDigit = true :=
    fun c hc => Decimal.isDigit_of_mem_fixed hc
  have hlen : (Decimal.fixed width n).length = width := Decimal.length_fixed width n
  have hne : Decimal.fixed width n ≠ [] := List.ne_nil_of_length_pos (hlen.symm ▸ hwidth.1)
  have hread : Decimal.read (Decimal.fixed width n) = n := Decimal.read_fixed_of_lt hn
  have hbound : Nat.pow 10 width ≤ 1000000000 := Nat.pow_le_pow_right (by decide) hwidth.2
  have hnumber : readNumber (some 9) (Decimal.fixed width n ++ rest) = _ :=
    readNumber_digits hdigits hne (by rintro m ⟨⟩; omega) (fun _ => hrest) (by omega)
  have hafter : rest.dropWhile Char.isDigit = rest := by
    cases rest with
    | nil => rfl
    | cons first others => rw [List.dropWhile_cons_of_neg (by simp [hrest first rfl])]
  have hcount : (Decimal.fixed width n ++ rest).length - rest.length = width := by
    rw [List.length_append, hlen]
    omega
  have hset : (set (Decimal.fixed width n ++ rest) : Reader Unit)
      ('.' :: (Decimal.fixed width n ++ rest)) = .ok ((), Decimal.fixed width n ++ rest) := rfl
  have hskip : (set (rest.dropWhile Char.isDigit) : Reader Unit) rest = .ok ((), rest) :=
    congrArg (fun s => Except.ok ((), s)) hafter
  unfold readFraction
  rw [bind_ok (a := '.' :: (Decimal.fixed width n ++ rest)) rfl]
  simp only
  rw [bind_ok hset, bind_ok hnumber, hread, bind_ok (a := rest) rfl, bind_ok hskip, hcount]
  rfl

/-- Nanoseconds are read from the fewest digits that are exact. -/
theorem readFraction_written {nanos : Nat} (h : nanos < 1000000000) (rest : List Char) :
    readFraction (writtenFraction nanos ++ 'Z' :: rest) = .ok (nanos, 'Z' :: rest) := by
  have hstop : ∀ c ∈ ('Z' :: rest).head?, c.isDigit = false := by
    rintro c ⟨⟩
    rfl
  unfold writtenFraction
  split
  · rename_i hzero
    rw [hzero]
    rfl
  · split
    · have hnanos : nanos / 1000000 * Nat.pow 10 (9 - 3) = nanos := by
        show nanos / 1000000 * 1000000 = nanos
        omega
      rw [List.cons_append, readFraction_digits (by decide) (by show _ < 1000; omega) hstop, hnanos]
    · split
      · have hnanos : nanos / 1000 * Nat.pow 10 (9 - 6) = nanos := by
          show nanos / 1000 * 1000 = nanos
          omega
        rw [List.cons_append, readFraction_digits (by decide) (by show _ < 1000000; omega) hstop,
          hnanos]
      · have hnanos : nanos * Nat.pow 10 (9 - 9) = nanos := Nat.mul_one nanos
        rw [List.cons_append, readFraction_digits (by decide) h hstop, hnanos]

/-! ## The whole text -/

/-- The fields of an instant of the calendar make that instant again. A fraction of a second or more
comes from second 60 of its minute. -/
theorem ofFields_written {t : Instant} (h : t.OnCalendar) :
    ofFields (Date.ofDayNumber (t.seconds / 86400)) ((t.seconds % 86400).toNat / 3600)
      ((t.seconds % 86400).toNat / 60 % 60)
      ((t.seconds % 86400).toNat % 60 + if t.InLeapSecond then 1 else 0)
      (t.fraction - (if t.InLeapSecond then 1 else 0) * 1000000000) 0 = .ok t := by
  obtain ⟨date, hdate⟩ : ∃ d, d = Date.ofDayNumber (t.seconds / 86400) := ⟨_, rfl⟩
  obtain ⟨second, hsecond⟩ : ∃ s, s = (t.seconds % 86400).toNat := ⟨_, rfl⟩
  have hvalid : date.Valid := hdate ▸ Date.valid_ofDayNumber _
  have hyear : -262143 ≤ date.year ∧ date.year ≤ 262142 := hdate ▸ Date.year_ofDayNumber t
  have hday : date.dayNumber = t.seconds / 86400 := hdate ▸ Date.dayNumber_ofDayNumber _
  have hbounds : ¬ (¬ date.Valid ∨ date.year < -262143 ∨ 262142 < date.year ∨
      (0 : Int).natAbs ≥ 86400) := by
    rintro (h | h | h | h)
    · exact h hvalid
    · omega
    · omega
    · exact absurd h (by decide)
  have hparts : ofParts? t.seconds t.fraction = some t := by
    unfold ofParts?
    rw [dif_pos ⟨⟨t.first_le, t.le_last⟩, t.fraction_lt⟩]
  have hlt := t.fraction_lt
  rw [← hdate, ← hsecond]
  unfold ofFields
  rw [if_neg hbounds]
  by_cases hleap : t.InLeapSecond
  · -- The text has second 60, which stands for second 59 and one second more of the fraction.
    have hlast : t.seconds % 60 = 59 := h hleap
    have hsixty : second % 60 + 1 = 60 := by omega
    have hseconds : date.dayNumber * 86400 + ((second / 3600 * 3600 + second / 60 % 60 * 60 +
        (60 - 1) : Nat) : Int) - 0 = t.seconds := by omega
    have hfraction : t.fraction - 1 * 1000000000 + 1 * 1000000000 = t.fraction := by
      have hover : 1000000000 ≤ t.fraction := hleap
      omega
    simp only [if_pos hleap, hsixty, if_true, hseconds, hfraction, hparts]
  · have hless : second % 60 + 0 ≠ 60 := by omega
    have hseconds : date.dayNumber * 86400 + ((second / 3600 * 3600 + second / 60 % 60 * 60 +
        (second % 60 + 0 - 0) : Nat) : Int) - 0 = t.seconds := by omega
    have hfraction : t.fraction - 0 * 1000000000 + 0 * 1000000000 = t.fraction := by omega
    simp only [if_neg hleap, if_neg hless, hseconds, hfraction, hparts]

/-- All of the text of an instant of the calendar is read as that instant. -/
theorem read_written {t : Instant} (h : t.OnCalendar) : read t.written = .ok t := by
  -- The fields are named so that reading the text does not compute them.
  obtain ⟨date, hdate⟩ : ∃ d, d = Date.ofDayNumber (t.seconds / 86400) := ⟨_, rfl⟩
  obtain ⟨second, hsecond⟩ : ∃ s, s = (t.seconds % 86400).toNat := ⟨_, rfl⟩
  obtain ⟨leap, hleap⟩ : ∃ n, n = if t.InLeapSecond then 1 else 0 := ⟨_, rfl⟩
  have hfields := ofFields_written h
  rw [← hdate, ← hsecond, ← hleap] at hfields
  have hyear : -262143 ≤ date.year ∧ date.year ≤ 262142 := hdate ▸ Date.year_ofDayNumber t
  have hmonth : 1 ≤ date.month ∧ date.month ≤ 12 := hdate ▸ Date.month_ofDayNumber _
  have hday : 1 ≤ date.day ∧ date.day ≤ 31 := hdate ▸ Date.day_ofDayNumber _
  have hleaple : leap ≤ 1 := by
    rw [hleap]
    split <;> decide
  have hnanos : t.fraction - leap * 1000000000 < 1000000000 := by
    have hlt := t.fraction_lt
    have hless : ¬ t.InLeapSecond → t.fraction < 1000000000 := Nat.lt_of_not_le
    rw [hleap]
    split
    · omega
    · rename_i hnot
      have hfull := hless hnot
      omega
  unfold read written
  simp only [← hdate, ← hsecond, ← hleap]
  simp only [List.append_assoc, List.cons_append]
  show (reader _).map Prod.fst = _
  unfold reader
  rw [bind_ok (readYear_written hyear _), bind_ok (readSeparator_cons rfl _),
    bind_ok (readField_fixed hmonth (by omega) _), bind_ok (readSeparator_cons rfl _),
    bind_ok (readField_fixed hday (by omega) _), bind_ok (readMark_cons (by decide) _),
    bind_ok (readField_fixed (by omega) (by omega) _), bind_ok (readSeparator_cons rfl _),
    bind_ok (readField_fixed (by omega) (by omega) _), bind_ok (readSeparator_cons rfl _),
    bind_ok (readField_fixed (by omega) (by omega) _), bind_ok (readFraction_written hnanos _)]
  have hend : readOffset ['Z'] = .ok (0, []) := rfl
  have hblank : ∀ s : List Char, s = ['Z'] ∨ s = [] → ∀ c ∈ s.head?, isBlank c = false := by
    rintro s (rfl | rfl) c ⟨⟩
    rfl
  rw [bind_ok (skipBlanks_eq (hblank _ (.inl rfl))), bind_ok hend,
    bind_ok (skipBlanks_eq (hblank _ (.inr rfl))), bind_ok (a := []) rfl]
  show Except.map _ (StateT.lift (ofFields _ _ _ _ _ _) []) = _
  rw [hfields]
  rfl

/-- The second that has the number of a leap second has its text. -/
theorem written_carried (t : Instant) : t.carried.written = t.written := by
  by_cases h : t.InLeapSecond ∧ t.seconds % 60 ≠ 59
  · obtain ⟨hleap, hsecond⟩ := h
    have hlt := t.fraction_lt
    have hseconds : t.carried.seconds = t.seconds + 1 := by
      unfold carried
      rw [dif_pos ⟨hleap, hsecond⟩]
    have hfraction : t.carried.fraction = t.fraction - 1000000000 := by
      unfold carried
      rw [dif_pos ⟨hleap, hsecond⟩]
    have hless : ¬ t.carried.InLeapSecond := by
      unfold InLeapSecond perSecond
      omega
    -- The next second is in the same minute.
    have hday : (t.seconds + 1) / 86400 = t.seconds / 86400 := by omega
    have hhour : ((t.seconds + 1) % 86400).toNat / 3600 = (t.seconds % 86400).toNat / 3600 := by
      omega
    have hminute : ((t.seconds + 1) % 86400).toNat / 60 % 60 =
        (t.seconds % 86400).toNat / 60 % 60 := by omega
    have hnumber : ((t.seconds + 1) % 86400).toNat % 60 + 0 =
        (t.seconds % 86400).toNat % 60 + 1 := by omega
    unfold written
    simp only [if_neg hless, if_pos hleap, hseconds, hfraction, hday, hhour, hminute, hnumber,
      Nat.zero_mul, Nat.one_mul, Nat.sub_zero]
  · unfold carried
    rw [dif_neg h]

/-- An instant is read back from its text, carried over if it is none of the calendar. -/
theorem ofText_toText (t : Instant) : ofText t.toText = .ok t.carried := by
  unfold ofText toText
  rw [String.toList_ofList, ← written_carried]
  exact read_written t.onCalendar_carried

/-! ## What is read of any text -/

/-- A reader that goes on where another one stopped has got something from that one. -/
theorem exists_of_bind {α β : Type} {p : Reader α} {f : α → Reader β} {s : List Char}
    {found : β × List Char} (h : (p >>= f) s = .ok found) :
    ∃ a s', p s = .ok (a, s') ∧ f a s' = .ok found := by
  replace h : (p s).bind (fun r => f r.1 r.2) = .ok found := h
  cases hp : p s with
  | error fault =>
    rw [hp] at h
    cases h
  | ok r =>
    rw [hp] at h
    exact ⟨r.1, r.2, rfl, h⟩

/-- A number of a given width is read from so many digits at most. -/
theorem readNumber_some {width n : Nat} {s s' : List Char}
    (h : readNumber (some width) s = .ok (n, s')) :
    ∃ count, count ≤ width ∧ count ≤ s.length ∧ s' = s.drop count ∧ n < Nat.pow 10 count := by
  unfold readNumber at h
  dsimp only at h
  split at h
  · cases h
  · split at h
    · cases h
    · split at h
      · cases h
      · cases h
        have hbegins := List.takeWhile_prefix (l := s.take width) Char.isDigit
        have hlen := hbegins.length_le
        rw [List.length_take] at hlen
        exact ⟨_, by omega, by omega, rfl, Decimal.read_lt (List.all_eq_true.mp List.all_takeWhile)⟩

/-- The digits behind a point are less than a second. -/
theorem readFraction_lt {n : Nat} {s s' : List Char} (h : readFraction s = .ok (n, s')) :
    n < 1000000000 := by
  unfold readFraction at h
  obtain ⟨_, _, hget, h⟩ := exists_of_bind h
  cases hget
  split at h
  · rename_i digits _
    obtain ⟨_, _, hset, h⟩ := exists_of_bind h
    cases hset
    obtain ⟨m, rest, hnumber, h⟩ := exists_of_bind h
    obtain ⟨_, _, hget, h⟩ := exists_of_bind h
    cases hget
    obtain ⟨_, _, hset, h⟩ := exists_of_bind h
    cases hset
    cases h
    obtain ⟨count, hwidth, hlen, rfl, hlt⟩ := readNumber_some hnumber
    have hcount : digits.length - (digits.drop count).length = count := by
      rw [List.length_drop]
      omega
    have hpow : Nat.pow 10 count * Nat.pow 10 (9 - count) = 1000000000 := by
      show 10 ^ count * 10 ^ (9 - count) = 10 ^ 9
      rw [← Nat.pow_add, Nat.add_sub_cancel' hwidth]
    rw [hcount, ← hpow]
    exact Nat.mul_lt_mul_of_pos_right hlt (Nat.pow_pos (by decide))
  · cases h
    decide

/-- Hours and minutes make up whole minutes. -/
theorem readHoursMinutes_whole {n : Nat} {s s' : List Char}
    (h : readHoursMinutes s = .ok (n, s')) : n % 60 = 0 := by
  unfold readHoursMinutes at h
  obtain ⟨hours, _, -, h⟩ := exists_of_bind h
  obtain ⟨_, _, -, h⟩ := exists_of_bind h
  obtain ⟨minutes, _, -, h⟩ := exists_of_bind h
  split at h
  · cases h
  · cases h
    omega

/-- Offsets are whole minutes. -/
theorem readOffset_whole {offset : Int} {s s' : List Char}
    (h : readOffset s = .ok (offset, s')) : offset % 60 = 0 := by
  unfold readOffset at h
  obtain ⟨_, _, hget, h⟩ := exists_of_bind h
  cases hget
  split at h
  · cases h
  · cases h
    rfl
  · cases h
    rfl
  · obtain ⟨_, _, -, h⟩ := exists_of_bind h
    obtain ⟨n, _, hn, h⟩ := exists_of_bind h
    have hwhole := readHoursMinutes_whole hn
    cases h
    omega
  · obtain ⟨_, _, -, h⟩ := exists_of_bind h
    obtain ⟨n, _, hn, h⟩ := exists_of_bind h
    have hwhole := readHoursMinutes_whole hn
    cases h
    omega
  · obtain ⟨_, _, -, h⟩ := exists_of_bind h
    obtain ⟨n, _, hn, h⟩ := exists_of_bind h
    have hwhole := readHoursMinutes_whole hn
    cases h
    omega
  · split at h
    · cases h
      rfl
    · cases h
  · cases h

/-- An instant is made of its parts. -/
theorem parts_of_ofParts? {seconds : Int} {fraction : Nat} {t : Instant}
    (h : ofParts? seconds fraction = some t) : t.seconds = seconds ∧ t.fraction = fraction := by
  unfold ofParts? at h
  split at h
  · cases h
    exact ⟨rfl, rfl⟩
  · cases h

/-- Fields of a text make an instant of the calendar. -/
theorem onCalendar_of_fields {date : Date} {hour minute second fraction : Nat} {offset : Int}
    {t : Instant} (hfraction : fraction < 1000000000) (hoffset : offset % 60 = 0)
    (h : ofFields date hour minute second fraction offset = .ok t) : t.OnCalendar := by
  unfold ofFields at h
  split at h
  · cases h
  · dsimp only at h
    split at h
    · rename_i hparts
      cases h
      obtain ⟨hseconds, hfraction'⟩ := parts_of_ofParts? hparts
      unfold OnCalendar InLeapSecond perSecond
      intro hleap
      -- A full second more comes from second 60, which is behind second 59 at any offset.
      by_cases hsixty : second = 60
      · rw [if_pos hsixty, hsixty] at hseconds
        omega
      · rw [if_neg hsixty] at hfraction'
        omega
    · cases h

/-- An instant that is read comes from fields with less than a second of a fraction, at an offset of
whole minutes. -/
theorem exists_fields_of_reader {s s' : List Char} {t : Instant} (h : reader s = .ok (t, s')) :
    ∃ date hour minute second fraction offset, fraction < 1000000000 ∧ offset % 60 = 0 ∧
      ofFields date hour minute second fraction offset = .ok t := by
  unfold reader at h
  obtain ⟨year, _, -, h⟩ := exists_of_bind h
  obtain ⟨-, _, -, h⟩ := exists_of_bind h
  obtain ⟨month, _, -, h⟩ := exists_of_bind h
  obtain ⟨-, _, -, h⟩ := exists_of_bind h
  obtain ⟨day, _, -, h⟩ := exists_of_bind h
  obtain ⟨-, _, -, h⟩ := exists_of_bind h
  obtain ⟨hour, _, -, h⟩ := exists_of_bind h
  obtain ⟨-, _, -, h⟩ := exists_of_bind h
  obtain ⟨minute, _, -, h⟩ := exists_of_bind h
  obtain ⟨-, _, -, h⟩ := exists_of_bind h
  obtain ⟨second, _, -, h⟩ := exists_of_bind h
  obtain ⟨fraction, _, hfraction, h⟩ := exists_of_bind h
  obtain ⟨-, _, -, h⟩ := exists_of_bind h
  obtain ⟨offset, _, hoffset, h⟩ := exists_of_bind h
  obtain ⟨-, _, -, h⟩ := exists_of_bind h
  obtain ⟨remaining, _, -, h⟩ := exists_of_bind h
  refine ⟨⟨year, month, day⟩, hour, minute, second, fraction, offset, readFraction_lt hfraction,
    readOffset_whole hoffset, ?_⟩
  split at h
  · cases hfields : ofFields ⟨year, month, day⟩ hour minute second fraction offset with
    | error fault =>
      rw [hfields] at h
      cases h
    | ok t' =>
      rw [hfields] at h
      cases h
      rfl
  · cases h

/-- What is read is an instant of the calendar. -/
theorem onCalendar_of_read {s : List Char} {t : Instant} (h : read s = .ok t) : t.OnCalendar := by
  unfold read at h
  cases hrun : reader.run s with
  | error fault =>
    rw [hrun] at h
    cases h
  | ok found =>
    rw [hrun] at h
    cases h
    obtain ⟨_, _, _, _, _, _, hfraction, hoffset, hfields⟩ := exists_fields_of_reader hrun
    exact onCalendar_of_fields hfraction hoffset hfields

end MessageBroker.Instant
