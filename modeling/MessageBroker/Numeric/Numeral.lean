import MessageBroker.Numeric.Binary64
import MessageBroker.Numeric.Decimal

/-!
# Numbers written by people

The spellings of integers and reals that settings accept from the environment: an optional sign and
digits for an integer; for a real also a point, an exponent, and the words for infinity and for no
number, in letters of either case.
-/

namespace MessageBroker.Numeral

/-- Splits off an optional sign: whether it is a minus, and the rest. -/
def splitSign : List Char → Bool × List Char
  | '-' :: rest => (true, rest)
  | '+' :: rest => (false, rest)
  | s => (false, s)

/-- The integer of a text, if 64 bits hold it. -/
def integer? (s : List Char) : Option Int :=
  let (negative, digits) := splitSign s
  (Decimal.read? digits).bind fun n =>
    let i : Int := if negative then -(n : Int) else n
    if -9223372036854775808 ≤ i ∧ i ≤ 9223372036854775807 then some i else none

/-- The natural number of a text, if 64 bits hold it. A plus sign is allowed. -/
def natural? (s : List Char) : Option Nat :=
  let digits := match s with
    | '+' :: rest => rest
    | s => s
  (Decimal.read? digits).bind fun n => if n ≤ 18446744073709551615 then some n else none

/-- The exponent behind a mantissa: zero if nothing follows. -/
def exponent? (s : List Char) : Option Int :=
  match s with
  | [] => some 0
  | c :: rest =>
    if c = 'e' ∨ c = 'E' then
      let (negative, digits) := splitSign rest
      (Decimal.read? digits).map fun n => if negative then -(n : Int) else n
    else none

/-- A magnitude: digits, an optional point with digits and an optional exponent, or a word. -/
def magnitude? (s : List Char) : Option Binary64 :=
  let word := s.map Char.toLower
  if word = "inf".toList ∨ word = "infinity".toList then some ⟨0x7ff0000000000000⟩
  else if word = "nan".toList then some ⟨0x7ff8000000000000⟩
  else
    let whole := s.takeWhile Char.isDigit
    let rest := s.drop whole.length
    let (fraction, rest) := match rest with
      | '.' :: tail => (tail.takeWhile Char.isDigit, tail.dropWhile Char.isDigit)
      | _ => ([], rest)
    if whole.isEmpty ∧ fraction.isEmpty then none
    else
      (exponent? rest).map fun e =>
        Binary64.ofDecimal (Decimal.read (whole ++ fraction)) (e - fraction.length)

/-- The real of a text. -/
def real? (s : List Char) : Option Binary64 :=
  let (negative, rest) := splitSign s
  (magnitude? rest).map fun x => if negative then x.negate else x

end MessageBroker.Numeral
