import Mathlib.Data.List.TakeWhile
import MessageBroker.Config.Toml.Document
import MessageBroker.Proofs.Numeric.Numeral

/-!
# Integers of TOML

An integer of a TOML document is a word of digits, with a sign or with the mark of a base.
`Toml.written?` is the integer that a word writes, whatever its size. Such a word is nothing else:
it is the integer if 64 bits hold that, and no value at all otherwise (`atom?_of_written`), so that
reading fails where a document has an integer that is too large. A word is read up to its end
(`value_of_atom`, `atom_of_word`).
-/

namespace MessageBroker.Config.Toml

open Numeral (IsSigned)

/-- The integer that a word writes, before it is known whether 64 bits hold it. -/
def written? (s : List Char) : Option Int :=
  match splitSign s with
  | (none, '0' :: 'x' :: rest) => (inBase? 16 isHexDigit rest).map Int.ofNat
  | (none, '0' :: 'o' :: rest) => (inBase? 8 (fun c => '0' ≤ c && c ≤ '7') rest).map Int.ofNat
  | (none, '0' :: 'b' :: rest) => (inBase? 2 (fun c => c = '0' || c = '1') rest).map Int.ofNat
  | (sign, rest) =>
    (magnitude? rest).map fun n => if sign = some true then -(n : Int) else n

/-- The integer of a word is the one that it writes, if 64 bits hold that. -/
theorem integer?_eq (s : List Char) : integer? s = (written? s).filter fun i => IsSigned i := by
  show (written? s).filter _ = _
  congr 1
  funext i
  exact (Bool.decide_and _ _).symm

/-! ## The shape of an integer -/

/-- Digits of a base, and underscores between them. -/
theorem forall_of_ungroup {isDigit : Char → Bool} {s digits : List Char}
    (h : ungroup? isDigit s = some digits) : s ≠ [] ∧ ∀ c ∈ s, isDigit c = true ∨ c = '_' := by
  constructor
  · rintro rfl
    cases h
  · fun_induction ungroup? isDigit s generalizing digits with
    | case1 => cases h
    | case2 c hc => simp [hc]
    | case3 => cases h
    | case4 c rest hc ih =>
      obtain ⟨inner, hinner, -⟩ := Option.map_eq_some_iff.mp h
      simpa [hc] using ih hinner
    | case5 => cases h
    | case6 c rest _ _ hc ih =>
      obtain ⟨inner, hinner, -⟩ := Option.map_eq_some_iff.mp h
      simpa [hc] using ih hinner
    | case7 => cases h

/-- The digits of a decimal integer, and underscores between them. -/
theorem forall_of_wholePart {s digits : List Char} (h : wholePart? s = some digits) :
    s ≠ [] ∧ ∀ c ∈ s, c.isDigit = true ∨ c = '_' := by
  obtain ⟨ungrouped, hungrouped, -⟩ := Option.bind_eq_some_iff.mp h
  exact forall_of_ungroup hungrouped

/-- A letter behind a zero is no decimal digit. -/
theorem wholePart?_marked {mark : Char} (hdigit : mark.isDigit = false) (hblank : mark ≠ '_')
    (rest : List Char) : wholePart? ('0' :: mark :: rest) = none := by
  cases hwhole : wholePart? ('0' :: mark :: rest) with
  | none => rfl
  | some digits =>
    rcases (forall_of_wholePart hwhole).2 mark (by simp) with h | h
    · rw [hdigit] at h
      cases h
    · exact absurd h hblank

/-- A character of an integer behind its sign. -/
def isIntegerChar (c : Char) : Bool := c.isAlphanum || c = '_'

/-- Hexadecimal digits are characters of integers. -/
theorem isIntegerChar_of_isHexDigit {c : Char} (h : isHexDigit c = true) :
    isIntegerChar c = true := by
  unfold isHexDigit Parser.hexDigit? at h
  unfold isIntegerChar Char.isAlphanum Char.isAlpha
  split at h
  · rename_i hdigit
    simp [hdigit]
  · split at h
    · rename_i hletter
      have hlower : c.isLower = true := by
        unfold Char.isLower
        simp only [ge_iff_le, Bool.and_eq_true, decide_eq_true_eq]
        exact ⟨hletter.1, UInt32.le_trans hletter.2 (by decide)⟩
      simp [hlower]
    · split at h
      · rename_i hletter
        have hupper : c.isUpper = true := by
          unfold Char.isUpper
          simp only [ge_iff_le, decide_eq_true_eq]
          exact ⟨hletter.1, UInt32.le_trans hletter.2 (by decide)⟩
        simp [hupper]
      · cases h

/-- Decimal digits are characters of integers. -/
theorem isIntegerChar_of_isDigit {c : Char} (h : c.isDigit = true) : isIntegerChar c = true := by
  simp [isIntegerChar, Char.isAlphanum, h]

/-- A word that writes an integer has decimal digits behind an optional sign, or characters of
integers behind the mark of a base. -/
theorem shape_of_written {s : List Char} {i : Int} (h : written? s = some i) :
    (∃ digits, wholePart? (splitSign s).2 = some digits) ∨
      ∃ mark rest, s = '0' :: mark :: rest ∧ mark ∈ ['x', 'o', 'b'] ∧
        ∀ c ∈ rest, isIntegerChar c = true := by
  have hmarked : ∀ {base : Nat} {isDigit : Char → Bool} {mark : Char} {rest : List Char},
      splitSign s = (none, '0' :: mark :: rest) → mark ∈ ['x', 'o', 'b'] →
      (inBase? base isDigit rest).map Int.ofNat = some i →
      (∀ c, isDigit c = true → isIntegerChar c = true) →
      ∃ mark rest, s = '0' :: mark :: rest ∧ mark ∈ ['x', 'o', 'b'] ∧
        ∀ c ∈ rest, isIntegerChar c = true := by
    intro base isDigit mark rest hsplit hmark hread hchars
    obtain ⟨n, hn, -⟩ := Option.map_eq_some_iff.mp hread
    obtain ⟨digits, hdigits, -⟩ := Option.bind_eq_some_iff.mp hn
    refine ⟨mark, rest, ?_, hmark, fun c hc => ?_⟩
    · unfold splitSign at hsplit
      split at hsplit
      · cases hsplit
      · cases hsplit
      · cases hsplit
        rfl
    · rcases (forall_of_ungroup hdigits).2 c hc with hdigit | rfl
      · exact hchars c hdigit
      · decide
  unfold written? at h
  split at h
  · exact .inr (hmarked ‹_› (by simp) h fun c => isIntegerChar_of_isHexDigit)
  · refine .inr (hmarked ‹_› (by simp) h fun c hc => isIntegerChar_of_isDigit ?_)
    obtain ⟨hleast, hgreatest⟩ := Bool.and_eq_true_iff.mp hc
    simp only [Char.isDigit, ge_iff_le, Bool.and_eq_true, decide_eq_true_eq]
    exact ⟨of_decide_eq_true hleast, UInt32.le_trans (of_decide_eq_true hgreatest) (by decide)⟩
  · refine .inr (hmarked ‹_› (by simp) h fun c hc => isIntegerChar_of_isDigit ?_)
    rcases (Bool.or_eq_true _ _).mp hc with hc | hc
    · rw [of_decide_eq_true hc]
      rfl
    · rw [of_decide_eq_true hc]
      rfl
  · rename_i sign rest _ _ _ hsplit
    obtain ⟨j, hj, -⟩ := Option.map_eq_some_iff.mp h
    obtain ⟨n, hn, -⟩ := Option.bind_eq_some_iff.mp hj
    obtain ⟨digits, hdigits, -⟩ := Option.map_eq_some_iff.mp hn
    exact .inl ⟨digits, by rwa [hsplit]⟩

/-- The sign of a word stands before its other characters. -/
theorem splitSign_cases (s : List Char) :
    s = (splitSign s).2 ∨ s = '-' :: (splitSign s).2 ∨ s = '+' :: (splitSign s).2 := by
  unfold splitSign
  split
  · exact .inr (.inl rfl)
  · exact .inr (.inr rfl)
  · exact .inl rfl

/-- The characters of a word that writes an integer, behind its sign. -/
theorem forall_of_written {s : List Char} {i : Int} (h : written? s = some i) :
    (splitSign s).2 ≠ [] ∧ ∀ c ∈ (splitSign s).2, isIntegerChar c = true := by
  rcases shape_of_written h with ⟨digits, hdigits⟩ | ⟨mark, rest, rfl, hmark, hrest⟩
  · obtain ⟨hne, hall⟩ := forall_of_wholePart hdigits
    refine ⟨hne, fun c hc => ?_⟩
    rcases hall c hc with hdigit | rfl
    · exact isIntegerChar_of_isDigit hdigit
    · decide
  · have hletter : isIntegerChar mark = true := by
      simp only [List.mem_cons, List.not_mem_nil, or_false] at hmark
      rcases hmark with rfl | rfl | rfl <;> decide
    have hzero : isIntegerChar '0' = true := by decide
    exact ⟨by simp [splitSign], by simpa [splitSign, hletter, hzero] using hrest⟩

/-- Behind its first character, a word that writes an integer has neither dashes nor colons. -/
theorem ne_of_mem_tail {s : List Char} {i : Int} (h : written? s = some i) {c : Char}
    (hc : c ∈ s.tail) : c ≠ '-' ∧ c ≠ ':' := by
  have hinteger : isIntegerChar c = true := by
    refine (forall_of_written h).2 c ?_
    rcases splitSign_cases s with hs | hs | hs
    · rw [← hs]
      exact List.mem_of_mem_tail hc
    · rwa [hs] at hc
    · rwa [hs] at hc
  constructor
  · rintro rfl
    exact absurd hinteger (by decide)
  · rintro rfl
    exact absurd hinteger (by decide)

/-! ## An integer is nothing else -/

section

variable {s : List Char} {i : Int}

/-- A word that writes an integer is no date. -/
theorem date?_of_written (h : written? s = some i) : date? s = none := by
  unfold date?
  dsimp only
  split
  · rfl
  · cases hdrop : s.drop 4 with
    | nil => rfl
    | cons c rest =>
      have hmem : c ∈ s.tail.drop 3 := by
        rw [List.drop_tail, hdrop]
        exact List.mem_cons_self
      have hne : c ≠ '-' := (ne_of_mem_tail h (List.mem_of_mem_drop hmem)).1
      split
      · rename_i hdash
        exact absurd (List.cons.inj hdash).1 hne
      · rfl

/-- What is left behind a number of two digits. -/
theorem mem_tail_of_pair {least greatest n : Nat} {rest : List Char}
    (h : pair? least greatest s = some (n, rest)) {c : Char} (hc : c ∈ rest) : c ∈ s.tail := by
  unfold pair? at h
  split at h
  · dsimp only at h
    split at h
    · split at h
      · cases h
        exact List.mem_cons_of_mem _ hc
      · cases h
    · cases h
  · cases h

/-- A word that writes an integer is no time of day. -/
theorem time?_of_written (h : written? s = some i) : time? s = none := by
  unfold time?
  cases hpair : pair? 0 23 s with
  | none => rfl
  | some found =>
    obtain ⟨hour, rest⟩ := found
    have hrest : ∀ c ∈ rest, c ≠ ':' :=
      fun c hc => (ne_of_mem_tail h (mem_tail_of_pair hpair hc)).2
    dsimp only [bind, Option.bind]
    split
    · rename_i rest
      exact absurd rfl (hrest ':' List.mem_cons_self)
    · rfl

/-- A word that writes an integer is no point in time. -/
theorem moment?_of_written (h : written? s = some i) : moment? s = none := by
  unfold moment?
  rw [date?_of_written h, time?_of_written h]

/-- Decimal digits are no real: a point and an exponent are both missing. -/
theorem unsignedReal?_of_wholePart {digits : List Char} (h : wholePart? s = some digits) :
    unsignedReal? s = none := by
  have hword : ∀ word : List Char, wholePart? word = none → s ≠ word := by
    rintro word hnone rfl
    rw [hnone] at h
    cases h
  -- Neither the exponent's mark nor a point ends the first part, so that part is everything.
  have hmantissa : s.takeWhile (fun c => !(c = 'e' || c = 'E')) = s := by
    refine List.takeWhile_eq_self_iff.mpr fun c hc => ?_
    rcases (forall_of_wholePart h).2 c hc with hdigit | rfl
    · have hbounds := Decimal.toNat_of_isDigit hdigit
      have hne : c ≠ 'e' ∧ c ≠ 'E' := by
        constructor <;> (rintro rfl; exact absurd hbounds (by decide))
      simp [hne]
    · decide
  have hwhole : s.takeWhile (· ≠ '.') = s := by
    refine List.takeWhile_eq_self_iff.mpr fun c hc => decide_eq_true ?_
    rcases (forall_of_wholePart h).2 c hc with hdigit | rfl
    · rintro rfl
      exact absurd hdigit (by decide)
    · decide
  unfold unsignedReal?
  rw [if_neg (hword _ (by decide)), if_neg (hword _ (by decide))]
  dsimp only
  rw [hmantissa, hwhole, List.drop_length]
  rfl

/-- Behind the mark of a base there is no real. -/
theorem unsignedReal?_marked {mark : Char} (hmark : mark ∈ ['x', 'o', 'b']) (rest : List Char) :
    unsignedReal? ('0' :: mark :: rest) = none := by
  have hne : mark.isDigit = false ∧ mark ≠ '_' ∧ mark ≠ '.' ∧ mark ≠ 'e' ∧ mark ≠ 'E' := by
    simp only [List.mem_cons, List.not_mem_nil, or_false] at hmark
    rcases hmark with rfl | rfl | rfl <;> decide
  obtain ⟨hdigit, hblank, hpoint, hsmall, hlarge⟩ := hne
  unfold unsignedReal?
  rw [if_neg (by simp), if_neg (by simp)]
  dsimp only
  rw [List.takeWhile_cons_of_pos (by decide), List.takeWhile_cons_of_pos (by decide),
    List.takeWhile_cons_of_pos (by simp [hsmall, hlarge]),
    List.takeWhile_cons_of_pos (by simp [hpoint]), wholePart?_marked hdigit hblank]
  split <;> rfl

/-- A word that writes an integer has no real behind its sign. -/
theorem unsignedReal?_of_written (h : written? s = some i) :
    unsignedReal? (splitSign s).2 = none := by
  rcases shape_of_written h with ⟨digits, hdigits⟩ | ⟨mark, rest, rfl, hmark, -⟩
  · exact unsignedReal?_of_wholePart hdigits
  · exact unsignedReal?_marked hmark rest

/-- A word that writes an integer is no real. -/
theorem real?_of_written (h : written? s = some i) : real? s = none := by
  unfold real?
  dsimp only
  rw [unsignedReal?_of_written h]
  rfl

/-- A word that writes an integer is that integer if 64 bits hold it, and no value otherwise. -/
theorem atom?_of_written (h : written? s = some i) :
    atom? s = if IsSigned i then some (.integer i) else none := by
  have hword : ∀ word : List Char, written? word = none → s ≠ word := by
    rintro word hnone rfl
    rw [hnone] at h
    cases h
  unfold atom?
  rw [if_neg (hword _ (by decide)), if_neg (hword _ (by decide)), integer?_eq, h,
    real?_of_written h, moment?_of_written h, Option.filter_some]
  by_cases hsigned : IsSigned i
  · simp [hsigned]
  · simp [hsigned]

/-- The characters of a word that writes an integer belong to one unquoted value. -/
theorem isAtomChar_of_written (h : written? s = some i) {c : Char} (hc : c ∈ s) :
    isAtomChar c = true := by
  have hinteger : ∀ c ∈ (splitSign s).2, isAtomChar c = true := by
    intro c hc
    have hchar := (forall_of_written h).2 c hc
    unfold isIntegerChar at hchar
    simp only [Bool.or_eq_true, decide_eq_true_eq] at hchar
    simp [isAtomChar, hchar]
  rcases splitSign_cases s with hs | hs | hs
  · exact hinteger c (hs ▸ hc)
  · rw [hs] at hc
    rcases List.mem_cons.mp hc with rfl | hc
    · decide
    · exact hinteger c hc
  · rw [hs] at hc
    rcases List.mem_cons.mp hc with rfl | hc
    · decide
    · exact hinteger c hc

/-- An unquoted value is read up to the end of its word. Behind a date and one blank, a digit would
go on with the time of day. -/
theorem atom_of_word (hs : ∀ c ∈ s, isAtomChar c = true) {rest : List Char}
    (hrest : ∀ c ∈ rest.head?, isAtomChar c = false)
    (hdate : date? s = none ∨ ∀ tail, rest = ' ' :: tail → ∀ c ∈ tail.head?, c.isDigit = false) :
    Parser.atom (s ++ rest) = (atom? s).map fun value => (value, rest) := by
  have htake : (s ++ rest).takeWhile isAtomChar = s := by
    have hstop : rest.takeWhile isAtomChar = [] := by
      cases rest with
      | nil => rfl
      | cons c tail => rw [List.takeWhile_cons_of_neg (by simp [hrest c rfl])]
    rw [List.takeWhile_append_of_pos hs, hstop, List.append_nil]
  have hdrop : (s ++ rest).dropWhile isAtomChar = rest := by
    rw [List.dropWhile_append_of_pos hs]
    cases rest with
    | nil => rfl
    | cons c tail => rw [List.dropWhile_cons_of_neg (by simp [hrest c rfl])]
  have hplain : ∀ isDate : Bool, (date? s = none → isDate = false) →
      (isDate && decide (rest.head? = some ' ') &&
        ((((rest.drop 1).takeWhile isAtomChar).head?.map Char.isDigit).getD false)) = false := by
    intro isDate hisDate
    rcases hdate with hdate | hnext
    · rw [hisDate hdate]
      rfl
    · by_cases hhead : rest.head? = some ' '
      · obtain ⟨tail, rfl⟩ := List.head?_eq_some_iff.mp hhead
        cases tail with
        | nil => simp
        | cons c tail =>
          have hdigit : c.isDigit = false := hnext _ rfl c rfl
          by_cases hc : isAtomChar c = true
          · simp [List.takeWhile_cons_of_pos hc, hdigit]
          · simp [List.takeWhile_cons_of_neg hc]
      · simp [hhead]
  unfold Parser.atom
  simp only [bind, StateT.bind, Parser.run, Parser.unread, get, getThe, MonadStateOf.get,
    StateT.get, pure, Option.bind_some, htake, hdrop]
  rw [hplain _ fun hnone => by rw [hnone]]
  simp only [Bool.false_eq_true, if_false]
  cases atom? s <;> rfl

/-- A value that begins with a character of unquoted values is one of them. -/
theorem value_of_atom {c : Char} (hc : isAtomChar c = true) (tail : List Char)
    (origin : Option String) (fuel : Nat) :
    Parser.value origin (fuel + 1) (c :: tail) =
      (Parser.atom (c :: tail)).map fun found => (.scalar origin found.1, found.2) := by
  have hunquoted : ∀ {a : Char}, isAtomChar a = false → some c ≠ some a := by
    intro a ha he
    rw [← Option.some.inj he, hc] at ha
    cases ha
  -- Quotes and brackets are no such characters, which leaves the last case of the reader.
  have hdefault : (Parser.value origin (fuel + 1)) (c :: tail) =
      (do return .scalar origin (← Parser.atom) : Parser Value) (c :: tail) := by
    unfold Parser.value
    simp only [bind, StateT.bind, Parser.peek, Option.bind_some, List.head?_cons]
    show _ = (StateT.bind Parser.atom fun found => pure (Value.scalar origin found)) (c :: tail)
    refine congrFun ?_ (c :: tail)
    split
    · exact absurd ‹_› (hunquoted (by decide))
    · exact absurd ‹_› (hunquoted (by decide))
    · exact absurd ‹_› (hunquoted (by decide))
    · exact absurd ‹_› (hunquoted (by decide))
    · rfl
  rw [hdefault]
  show (Parser.atom (c :: tail)).bind _ = _
  cases Parser.atom (c :: tail) <;> rfl

end

end MessageBroker.Config.Toml
