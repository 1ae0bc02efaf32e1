import MessageBroker.Json.Writer
import MessageBroker.Text.Utf8

/-!
# Encoding payloads

A payload is the compact JSON text of a value. Two kinds of value have none: a map whose names are
no texts, and one that refuses to be written, for a reason of its own. A reason that ends in a
position, as in `at line 3 column 7`, is taken as the wording of a fault at that place.
-/

namespace MessageBroker.Json

/-- Why a value has no JSON text. -/
inductive EncodingFault where
  | keyNotString
  | refused (reason : String)
deriving DecidableEq

/-- The text before the last occurrence of a mark, and the text behind it. -/
def splitAtLast? (mark : List Char) : List Char → Option (List Char × List Char)
  | [] => none
  | c :: rest =>
    match splitAtLast? mark rest with
    | some (before, behind) => some (c :: before, behind)
    | none =>
      if mark.isPrefixOf (c :: rest) then some ([], (c :: rest).drop mark.length) else none

/-- The line and the column of a text such as `3 column 7`, if 64 bits hold them. -/
def position? (s : List Char) : Option (Nat × Nat) := do
  let digits := s.takeWhile Char.isDigit
  let line ← Decimal.read? digits
  let mark := " column ".toList
  let rest := s.drop digits.length
  if !mark.isPrefixOf rest then none
  let column ← Decimal.read? (rest.drop mark.length)
  if line ≤ 18446744073709551615 ∧ column ≤ 18446744073709551615 then some (line, column) else none

/-- The wording of a reason. Its position is written without leading zeros, and not at all for
line 0. -/
def reasonText (reason : String) : String :=
  let found : Option (List Char × Nat × Nat) := do
    let (before, behind) ← splitAtLast? " at line ".toList reason.toList
    return (before, ← position? behind)
  match found with
  | none => reason
  | some (before, 0, _) => String.ofList before
  | some (before, line, column) =>
    String.ofList before ++ " at line " ++ String.ofList (Decimal.natural line) ++
      " column " ++ String.ofList (Decimal.natural column)

/-- The wording of the fault. -/
def EncodingFault.message : EncodingFault → String
  | .keyNotString => "key must be a string"
  | .refused reason => reasonText reason

/-- The bytes of a value's compact text. -/
def encode (value : Json) : List UInt8 := Utf8.encode value.write

end MessageBroker.Json
