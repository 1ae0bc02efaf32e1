/-!
# Double-precision numbers

A `Binary64` is the 64-bit pattern of a floating point number: a sign, an exponent and a
significand. A finite number is the significand times a power of two, which `Binary64.parts` gives.
-/

namespace MessageBroker

/-- A floating point number, by its bit pattern. -/
structure Binary64 where
  bits : UInt64
deriving DecidableEq, Inhabited

namespace Binary64

/-- The number for machine arithmetic. -/
def toFloat (x : Binary64) : Float := Float.ofBits x.bits

/-- The number of a machine result. -/
def ofFloat (x : Float) : Binary64 := ⟨x.toBits⟩

/-- The sign bit is set. -/
def isNegative (x : Binary64) : Bool := x.bits.toNat / Nat.pow 2 63 = 1

/-- The eleven exponent bits. -/
def exponentBits (x : Binary64) : Nat := x.bits.toNat / Nat.pow 2 52 % Nat.pow 2 11

/-- The fifty-two stored bits of the significand. -/
def significandBits (x : Binary64) : Nat := x.bits.toNat % Nat.pow 2 52

/-- Neither infinite nor a NaN. -/
def isFinite (x : Binary64) : Bool := x.exponentBits ≠ 2047

/-- Not a number. -/
def isNaN (x : Binary64) : Bool := x.exponentBits = 2047 ∧ x.significandBits ≠ 0

/-- `(m, q)` such that a finite number's magnitude is `m * 2 ^ q`. -/
def parts (x : Binary64) : Nat × Int :=
  if x.exponentBits = 0 then (x.significandBits, -1074)
  else (Nat.pow 2 52 + x.significandBits, (x.exponentBits : Int) - 1075)

/-- The gap below the number is half the gap above it: it is the least of its power of two. -/
def isGapEdge (x : Binary64) : Bool := x.significandBits = 0 ∧ 1 < x.exponentBits

/-- The same number with its sign changed. -/
def negate (x : Binary64) : Binary64 := ⟨x.bits ^^^ 0x8000000000000000⟩

/-- Positive zero. -/
def zero : Binary64 := ⟨0⟩

/-- The number nearest to `m * 10 ^ e`, infinite beyond the largest one. -/
def ofDecimal (m : Nat) (e : Int) : Binary64 :=
  let digits : Int := (Nat.toDigits 10 m).length
  if m = 0 ∨ e + digits < -400 then zero
  else if 400 < e + digits then ⟨0x7ff0000000000000⟩
  else ofFloat (Float.ofScientific m (e < 0) e.natAbs)

/-- The nearest whole number, halves away from zero; none if the number is not finite. -/
def round? (x : Binary64) : Option Int :=
  if x.isFinite then
    let (m, q) := x.parts
    let unit := Nat.pow 2 (-q).toNat
    let magnitude := if 0 ≤ q then m * Nat.pow 2 q.toNat else (2 * m + unit) / (2 * unit)
    some (if x.isNegative then -(magnitude : Int) else magnitude)
  else none

end Binary64

end MessageBroker
