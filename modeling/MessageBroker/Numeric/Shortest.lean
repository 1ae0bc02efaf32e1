import MessageBroker.Numeric.Binary64

/-!
# Shortest decimals

The fewest digits that read back as a given double: among the decimals that round to the number,
one with the least count of digits, and of those the one nearest to the number. All comparisons are
in natural numbers, over a common unit of a quarter of the number's last binary place.
-/

namespace MessageBroker

/-- Which of two equally near neighbours is taken. -/
inductive Tie where
  | even
  | up
deriving DecidableEq, Repr

/-- The decimal `digits * 10 ^ exponent`. -/
structure DecimalNumber where
  digits : Nat
  exponent : Int
deriving DecidableEq, Repr

namespace DecimalNumber

/-- Moves trailing zeros into the exponent, at most `fuel` of them. -/
def trimmed (fuel : Nat) (d : DecimalNumber) : DecimalNumber :=
  match fuel with
  | 0 => d
  | fuel + 1 =>
    if d.digits ≠ 0 ∧ d.digits % 10 = 0 then trimmed fuel ⟨d.digits / 10, d.exponent + 1⟩ else d

end DecimalNumber

/-- A number with the interval of reals that round to it, as multiples of one unit. -/
structure RoundingInterval where
  low : Nat
  number : Nat
  high : Nat
  closed : Bool
  unit : Nat

namespace RoundingInterval

/-- The interval of a double's magnitude. -/
def ofBinary64 (x : Binary64) : RoundingInterval :=
  let (m, q) := x.parts
  let scale := Nat.pow 2 q.toNat
  ⟨(4 * m - (if x.isGapEdge then 1 else 2)) * scale, 4 * m * scale, (4 * m + 2) * scale,
    m % 2 = 0, 4 * Nat.pow 2 (-q).toNat⟩

/-- The interval divided by a power of ten. -/
def shifted (r : RoundingInterval) (k : Int) : RoundingInterval :=
  let up := Nat.pow 10 (-k).toNat
  ⟨r.low * up, r.number * up, r.high * up, r.closed, r.unit * Nat.pow 10 k.toNat⟩

/-- The whole number rounds to the number. -/
def Contains (r : RoundingInterval) (c : Nat) : Prop :=
  (r.low < c * r.unit ∨ (r.closed ∧ r.low = c * r.unit)) ∧
  (c * r.unit < r.high ∨ (r.closed ∧ r.high = c * r.unit))

instance (r : RoundingInterval) (c : Nat) : Decidable (r.Contains c) :=
  inferInstanceAs (Decidable (_ ∧ _))

/-- The nearer of the two whole neighbours that round to the number. -/
def nearest? (r : RoundingInterval) (tie : Tie) : Option Nat :=
  let below := r.number / r.unit
  let above := below + 1
  if r.Contains below then
    if r.Contains above then
      let down := r.number - below * r.unit
      let up := above * r.unit - r.number
      if down < up then some below
      else if up < down then some above
      else match tie with
        | .even => some (if below % 2 = 0 then below else above)
        | .up => some above
    else some below
  else if r.Contains above then some above
  else none

/-- The number of places before the decimal point, negative for zeros behind it. -/
def places (r : RoundingInterval) : Int :=
  if r.unit ≤ r.number then (Nat.toDigits 10 (r.number / r.unit)).length
  else
    let zeros := (Nat.toDigits 10 (r.unit / r.number)).length
    if r.unit ≤ r.number * Nat.pow 10 (zeros - 1) then 2 - (zeros : Int) else 1 - (zeros : Int)

end RoundingInterval

namespace Binary64

/-- Tries the grids from `digits` digits on, `fuel` of them. -/
def shortestFrom (tie : Tie) (r : RoundingInterval) (places : Int) :
    (digits fuel : Nat) → DecimalNumber
  | digits, 0 => ⟨0, places - digits⟩
  | digits, fuel + 1 =>
    match (r.shifted (places - digits)).nearest? tie with
    | some c => ⟨c, places - digits⟩
    | none => shortestFrom tie r places (digits + 1) fuel

/-- The shortest decimal of a finite number's magnitude. -/
def shortest (tie : Tie) (x : Binary64) : DecimalNumber :=
  if x.parts.1 = 0 then ⟨0, 0⟩
  else
    let r := RoundingInterval.ofBinary64 x
    (shortestFrom tie r r.places 1 17).trimmed 20

end Binary64

end MessageBroker
