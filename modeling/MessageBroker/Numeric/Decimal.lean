/-!
# Decimal digits

Decimal text of natural numbers, written with as many digits as needed or with a fixed number of
them, and read back digit by digit.
-/

namespace MessageBroker.Decimal

/-- The character of a digit. -/
def digit (d : Nat) : Char := Char.ofNat (48 + d % 10)

/-- The value of a digit character. -/
def value (c : Char) : Nat := c.toNat - 48

/-- The digits of a number, without leading zeros. -/
def natural (n : Nat) : List Char := Nat.toDigits 10 n

/-- The last `width` digits of a number, leading zeros kept. -/
def fixed : Nat → Nat → List Char
  | 0, _ => []
  | width + 1, n => fixed width (n / 10) ++ [digit n]

/-- At least `width` digits: leading zeros fill up a shorter number. -/
def padded (width n : Nat) : List Char :=
  if n < Nat.pow 10 width then fixed width n else natural n

/-- The number that a list of digits writes. -/
def read (digits : List Char) : Nat := digits.foldl (fun n c => n * 10 + value c) 0

/-- The digits of an integer, after a minus sign if it is negative. -/
def integer (i : Int) : List Char :=
  match i with
  | .ofNat n => natural n
  | .negSucc n => '-' :: natural (n + 1)

/-- All characters are digits, and there is at least one. -/
def isNumeral (s : List Char) : Bool := !s.isEmpty && s.all Char.isDigit

/-- The number that the text writes: digits alone, and at least one. -/
def read? (s : List Char) : Option Nat := if isNumeral s then some (read s) else none

theorem length_fixed (width n : Nat) : (fixed width n).length = width := by
  induction width generalizing n with
  | zero => rfl
  | succ width ih => simp [fixed, ih]

end MessageBroker.Decimal
