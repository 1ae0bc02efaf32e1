import MessageBroker.Config.Source
import MessageBroker.Proofs.Json.Written
import MessageBroker.Proofs.Numeric.Numeral

/-!
# Integers of JSON

An integer of a JSON document is a numeral without point and exponent. `Json.written?` is the
integer that a numeral writes, whatever its size. Where a value is due, the numeral is read as that
integer if 64 bits hold it with its sign, apart from the negative zero, and otherwise as a double
(`reads_value_of_written`).
-/

namespace MessageBroker.Json

open Config (scalarOfNumber)
open Numeral (IsSigned)
open Reader

/-- The integer that a numeral writes, before it is known whether 64 bits hold it. -/
def written? (s : List Char) : Option Int :=
  let (negative, digits) := splitMinus s
  if IsWhole digits then
    some (if negative then -(Decimal.read digits : Int) else Decimal.read digits)
  else none

/-- The double for a numeral that 64 bits do not hold with its sign: the leading digits that they
hold without one, times a power of ten if these are not all; none if that is out of range. -/
def double? (s : List Char) : Option Binary64 :=
  let (negative, digits) := splitMinus s
  let (m, taken) := takeDigits greatestWord 0 digits
  let magnitude := if digits.length - taken = 0 then
      some (Binary64.ofFloat (UInt64.ofNat m).toFloat)
    else scaled? m (digits.length - taken : Nat)
  magnitude.map fun x => if negative then x.negate else x

/-- The value that a numeral is read as. -/
def ofNumeral? (s : List Char) : Option Json :=
  (wholeNumber? (splitMinus s).1 (splitMinus s).2).map .number

/-- The scalar for an integer that 64 bits hold with its sign. -/
def signedScalar (negative : Bool) (i : Int) : Config.Scalar :=
  if negative ∧ i = 0 then .real Binary64.zero.negate else .integer i

/-- A numeral that writes an integer, in parts. -/
theorem exists_of_written {s : List Char} {i : Int} (h : written? s = some i) :
    IsWhole (splitMinus s).2 ∧ i = if (splitMinus s).1 then -(Decimal.read (splitMinus s).2 : Int)
      else Decimal.read (splitMinus s).2 := by
  unfold written? at h
  dsimp only at h
  split at h
  · rename_i hwhole
    cases h
    exact ⟨hwhole, rfl⟩
  · cases h

/-- The scalar for a magnitude with a sign. -/
theorem scalarOfNumber_whole (negative : Bool) (n : Nat) :
    scalarOfNumber (whole negative n) =
      if IsSigned (if negative then -(n : Int) else n) then
        signedScalar negative (if negative then -(n : Int) else n)
      else .real (if negative then (Binary64.ofFloat (UInt64.ofNat n).toFloat).negate
        else Binary64.ofFloat (UInt64.ofNat n).toFloat) := by
  unfold IsSigned signedScalar whole
  cases negative with
  | false =>
    -- Read as an exact integer, which is rounded only by becoming a setting.
    by_cases hsigned : (n : Int) ≤ 9223372036854775807
    · have hpos : (-9223372036854775808 : Int) ≤ n := by omega
      simp [scalarOfNumber, hsigned, hpos]
    · simp [scalarOfNumber, hsigned]
  | true =>
    by_cases hzero : n = 0
    · subst hzero
      rfl
    · by_cases hsigned : n ≤ 9223372036854775808
      · have hlarge : ¬ 9223372036854775808 < n := Nat.not_lt.mpr hsigned
        have hlow : (-9223372036854775808 : Int) ≤ -(n : Int) := by omega
        have hhigh : -(n : Int) ≤ 9223372036854775807 := by omega
        simp [scalarOfNumber, hzero, hlarge, hlow, hhigh]
      · have hlarge : 9223372036854775808 < n := Nat.not_le.mp hsigned
        have hlow : ¬ (-9223372036854775808 : Int) ≤ -(n : Int) := by omega
        simp [scalarOfNumber, hzero, hlarge, hlow]

/-- What the number of a numeral becomes as a setting. -/
theorem scalarOfNumber_of_written {s : List Char} {i : Int} (h : written? s = some i) :
    (wholeNumber? (splitMinus s).1 (splitMinus s).2).map scalarOfNumber =
      if IsSigned i then some (signedScalar (splitMinus s).1 i) else (double? s).map .real := by
  obtain ⟨-, hi⟩ := exists_of_written h
  unfold double?
  generalize splitMinus s = parts at hi ⊢
  obtain ⟨negative, digits⟩ := parts
  dsimp only at hi ⊢
  -- Beyond 64 bits digits are left over, and the reader makes a double itself.
  by_cases hle : Decimal.read digits ≤ greatestWord
  · have htaken : takeDigits greatestWord 0 digits = (Decimal.read digits, digits.length) :=
      takeDigits_eq hle
    rw [wholeNumber?_eq hle, htaken, Option.map_some, scalarOfNumber_whole, ← hi]
    dsimp only
    rw [if_pos (Nat.sub_self _), Option.map_some, Option.map_some]
    split <;> rfl
  · have hlt : (takeDigits greatestWord 0 digits).2 < digits.length :=
      takeDigits_lt (Nat.zero_le _) (Nat.not_le.mp hle)
    have hsigned : ¬ IsSigned i := by
      unfold IsSigned
      unfold greatestWord at hle
      split at hi <;> omega
    have hdropped : ¬ digits.length - (takeDigits greatestWord 0 digits).2 = 0 :=
      Nat.sub_ne_zero_of_lt hlt
    unfold wholeNumber?
    dsimp only
    rw [if_neg hsigned, if_neg hdropped, if_neg hdropped, Option.map_map, Option.map_map]
    rfl

/-- A numeral that writes an integer begins with a minus sign or a digit. -/
theorem head_of_written {s : List Char} {i : Int} (h : written? s = some i) :
    ∃ c tail, s = c :: tail ∧ c.toNat < 128 ∧ (c = '-' || c.isDigit) = true := by
  obtain ⟨hwhole, -⟩ := exists_of_written h
  unfold splitMinus at hwhole
  split at hwhole
  · exact ⟨'-', _, rfl, by decide, rfl⟩
  · obtain ⟨c, tail, hs⟩ := List.exists_cons_of_ne_nil hwhole.ne_nil
    have hdigit : c.isDigit = true := hwhole.isDigit c (hs ▸ List.mem_cons_self)
    have hbounds := Decimal.toNat_of_isDigit hdigit
    exact ⟨c, tail, hs, by omega, by rw [hdigit, Bool.or_true]⟩

/-- Where a value is due, a numeral that writes an integer is read as its number. -/
theorem reads_value_of_written {s : List Char} {i : Int} (h : written? s = some i)
    {rest : List UInt8} (hrest : EndsNumeral rest) (fuel depth : Nat) :
    Reads (value (fuel + 2) depth .any) (Utf8.encode s) rest (ofNumeral? s) := by
  obtain ⟨hwhole, -⟩ := exists_of_written h
  obtain ⟨c, tail, hs, hascii, hnumeric⟩ := head_of_written h
  have hbytes : Utf8.encode s = UInt8.ofNat c.toNat :: Utf8.encode tail := by
    rw [hs]
    show String.utf8EncodeChar c ++ _ = _
    rw [Utf8.encodeChar_of_lt hascii]
    rfl
  have hfirst := reads_first (isSpace_of_numeric hnumeric).1 (Utf8.encode tail ++ rest)
  rw [Utf8.ofNat_toNat_ofNat hascii, ← List.cons_append, ← hbytes] at hfirst
  rw [value, anyValue]
  refine hfirst.look ?_
  -- No other kind of value begins with a character of a numeral.
  split
  case h_7 =>
    rw [if_pos hnumeric]
    exact (reads_whole hwhole hrest).map Json.number
  all_goals cases hnumeric

end MessageBroker.Json
