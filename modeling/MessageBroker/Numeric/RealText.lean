import MessageBroker.Numeric.Shortest
import MessageBroker.Numeric.Decimal

/-!
# Written real numbers

A `RealStyle` says how a double is written from its shortest digits: where positional notation ends
and an exponent begins, whether a whole number keeps a point, which way ties go. The styles in use
are `RealStyle.json` for JSON text and log fields, and `RealStyle.plain` for settings.
-/

namespace MessageBroker

/-- How a double is written. -/
structure RealStyle where
  tie : Tie
  /-- The least number of places before the point that is written without an exponent. -/
  least : Option Int
  /-- The greatest number of places before the point that is written without an exponent. -/
  greatest : Option Int
  /-- A whole number is written with `.0` behind it. -/
  keepsPoint : Bool

namespace RealStyle

/-- At least one decimal; an exponent from `1e+16` on and below `0.00001`. -/
def json : RealStyle := ⟨.even, some (-4), some 16, true⟩

/-- Never an exponent; whole numbers without a point. -/
def plain : RealStyle := ⟨.up, none, none, false⟩

/-- Never an exponent, and at least one decimal. -/
def pointed : RealStyle := { plain with keepsPoint := true }

/-- Positional notation of digits whose point stands after `places` of them. -/
def positional (style : RealStyle) (digits : List Char) (places : Int) : List Char :=
  if places ≤ 0 then '0' :: '.' :: List.replicate (-places).toNat '0' ++ digits
  else if places < digits.length then
    digits.take places.toNat ++ '.' :: digits.drop places.toNat
  else
    digits ++ List.replicate (places.toNat - digits.length) '0' ++
      (if style.keepsPoint then ['.', '0'] else [])

/-- One digit, the others behind a point, and the exponent with its sign. -/
def exponential (digits : List Char) (places : Int) : List Char :=
  digits.take 1 ++ (if digits.length = 1 then [] else '.' :: digits.drop 1) ++
    'e' :: (if 0 < places then ['+'] else []) ++ Decimal.integer (places - 1)

/-- The digits of a magnitude. -/
def magnitude (style : RealStyle) (d : DecimalNumber) : List Char :=
  if d.digits = 0 then '0' :: (if style.keepsPoint then ['.', '0'] else [])
  else
    let digits := Decimal.natural d.digits
    let places := digits.length + d.exponent
    if style.least.all (· ≤ places) ∧ style.greatest.all (places ≤ ·) then
      style.positional digits places
    else exponential digits places

/-- The text of a number. -/
def write (style : RealStyle) (x : Binary64) : List Char :=
  if x.isNaN then ['N', 'a', 'N']
  else
    let sign := if x.isNegative then ['-'] else []
    if x.isFinite then sign ++ style.magnitude (x.shortest style.tie)
    else sign ++ ['i', 'n', 'f']

end RealStyle

end MessageBroker
