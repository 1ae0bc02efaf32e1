import MessageBroker.Json.Cursor

/-!
# Numerals in JSON

A numeral without point and exponent is an exact integer if 64 bits hold it, signed or unsigned.
Any other numeral is a double: its leading digits, as many as 64 bits hold, times or divided by a
power of ten, each rounded once. `-0` is a double too, so that it keeps its sign.
-/

namespace MessageBroker.Json

/-- The greatest number that 64 bits hold. -/
def greatestWord : Nat := 18446744073709551615

/-- Appends digits to a number while the result stays within a limit; the second component counts
the digits that were taken. -/
def takeDigits (limit : Nat) : Nat → List Char → Nat × Nat
  | n, [] => (n, 0)
  | n, c :: rest =>
    let next := n * 10 + Decimal.value c
    if limit < next then (n, 0)
    else
      let (m, taken) := takeDigits limit next rest
      (m, taken + 1)

/-- A power of ten as a double. -/
def powerOfTen (k : Nat) : Float := Float.ofScientific 1 false k

/-- Divides by `10 ^ k`, in steps that doubles can hold. -/
def divideByPower : (steps : Nat) → Float → Nat → Float
  | 0, f, _ => f
  | steps + 1, f, k =>
    if k ≤ 308 then f / powerOfTen k
    else divideByPower steps (f / powerOfTen 308) (k - 308)

/-- The double of `significand * 10 ^ exponent`, none if it is out of range. Three steps of division
bring every significand down to zero. -/
def scaled? (significand : Nat) (exponent : Int) : Option Binary64 :=
  let f := (UInt64.ofNat significand).toFloat
  match exponent with
  | .ofNat k =>
    if significand = 0 then some Binary64.zero
    else if k ≤ 308 then
      let x := Binary64.ofFloat (f * powerOfTen k)
      if x.isFinite then some x else none
    else none
  | .negSucc k => some (Binary64.ofFloat (divideByPower 4 f (k + 1)))

namespace Reader

/-- The double of a sign, a significand and an exponent. -/
def real (negative : Bool) (significand : Nat) (exponent : Int) : Reader Number :=
  match scaled? significand exponent with
  | some x => return .real (if negative then x.negate else x)
  | none => fail .numberOutOfRange

/-- The part of a numeral from `e` on. An exponent that 32 bits cannot hold makes a number zero or
puts it out of range. -/
def exponentPart (negative : Bool) (significand : Nat) (exponent : Int) : Reader Number := do
  pass 1
  let sign : Int ← (do
    match ← peek with
    | some '+' => pass 1; return 1
    | some '-' => pass 1; return -1
    | _ => return 1)
  match ← peek with
  | none => fail .endInValue
  | some c =>
    if c.isDigit then
      let here ← get
      let run ← digits
      let (n, taken) := takeDigits 2147483647 0 run
      if taken = run.length then real negative significand (exponent + sign * n)
      else if significand ≠ 0 ∧ sign = 1 then
        set (here.skip (taken + 1))
        fail .numberOutOfRange
      else return .real (if negative then Binary64.zero.negate else Binary64.zero)
    else
      pass 1
      fail .invalidNumber

/-- The part of a numeral from the point on. -/
def fractionPart (negative : Bool) (significand : Nat) (exponent : Int) : Reader Number := do
  pass 1
  let run ← digits
  if run.isEmpty then
    match ← peek with
    | some _ => failNext .invalidNumber
    | none => failNext .endInValue
  else
    let (m, taken) := takeDigits greatestWord significand run
    let exponent := exponent - (taken : Int)
    match ← peek with
    | some 'e' | some 'E' => exponentPart negative m exponent
    | _ => real negative m exponent

/-- The integer of a sign and a magnitude, or a double where 64 bits do not hold it. -/
def whole (negative : Bool) (magnitude : Nat) : Number :=
  if !negative then .integer magnitude
  else if magnitude = 0 then .real Binary64.zero.negate
  else if 9223372036854775808 < magnitude then
    .real (Binary64.ofFloat (UInt64.ofNat magnitude).toFloat).negate
  else .integer (-(magnitude : Int))

/-- A numeral behind its sign. -/
def magnitude (negative : Bool) : Reader Number := do
  match ← peek with
  | none => fail .endInValue
  | some c =>
    if !c.isDigit then
      pass 1
      fail .invalidNumber
    else
      let run ← (if c = '0' then pass 1 *> pure ['0'] else digits)
      match c, ← peek with
      | '0', some d => if d.isDigit then failNext .invalidNumber
      | _, _ => pure ()
      let (m, taken) := takeDigits greatestWord 0 run
      let dropped : Int := (run.length - taken : Nat)
      match ← peek with
      | some '.' => fractionPart negative m dropped
      | some 'e' | some 'E' => exponentPart negative m dropped
      | _ => if dropped = 0 then return whole negative m else real negative m dropped

/-- A numeral, from its sign or its first digit on. -/
def numeral : Reader Number := do
  match ← peek with
  | some '-' =>
    pass 1
    magnitude true
  | _ => magnitude false

/-! ## Numerals that are passed over -/

/-- Passes over an exponent. -/
def skipExponent : Reader Unit := do
  pass 1
  match ← peek with
  | some '+' | some '-' => pass 1
  | _ => pure ()
  if (← digits).isEmpty then
    pass 1
    fail .invalidNumber

/-- Passes over a numeral of any size. -/
def skipNumeral : Reader Unit := do
  if (← peek) = some '-' then pass 1
  match ← peek with
  | some '0' =>
    pass 1
    match ← peek with
    | some d => if d.isDigit then failNext .invalidNumber
    | none => pure ()
  | _ =>
    if (← digits).isEmpty then
      pass 1
      fail .invalidNumber
  match ← peek with
  | some '.' =>
    pass 1
    if (← digits).isEmpty then failNext .invalidNumber
    match ← peek with
    | some 'e' | some 'E' => skipExponent
    | _ => pure ()
  | some 'e' | some 'E' => skipExponent
  | _ => pure ()

end Reader

end MessageBroker.Json
