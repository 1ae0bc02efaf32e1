import MessageBroker.Json.Literal
import MessageBroker.Json.Numeral

/-!
# Values that are passed over

A member that nobody asked for is passed over. It must be JSON, but it is neither decoded nor
limited in depth.
-/

namespace MessageBroker.Json.Reader

mutual

/-- Passes over a value. -/
def skipValue : (fuel : Nat) → Reader Unit
  | 0 => fail .tooDeep
  | fuel + 1 => do
    match ← first with
    | 'n' => word ['n', 'u', 'l', 'l']
    | 't' => word ['t', 'r', 'u', 'e']
    | 'f' => word ['f', 'a', 'l', 's', 'e']
    | '"' =>
      pass 1
      skipLiteral
    | '[' =>
      pass 1
      space
      if (← peek) = some ']' then pass 1 else skipItems fuel
    | '\x7b' =>
      pass 1
      space
      if (← peek) = some '\x7d' then pass 1 else skipMembers fuel
    | c => if c = '-' || c.isDigit then skipNumeral else failNext .expectedValue

/-- Passes over the items of an array, from an item on. -/
def skipItems : (fuel : Nat) → Reader Unit
  | 0 => fail .tooDeep
  | fuel + 1 => do
    if (← peek).isNone then failNext .endInList
    skipValue fuel
    space
    match ← peek with
    | some ',' =>
      pass 1
      let _ ← first
      skipItems fuel
    | some ']' => pass 1
    | some _ => failNext .expectedListComma
    | none => failNext .endInList

/-- Passes over the members of an object, from a name on. -/
def skipMembers : (fuel : Nat) → Reader Unit
  | 0 => fail .tooDeep
  | fuel + 1 => do
    space
    match ← peek with
    | some '"' =>
      pass 1
      skipLiteral
    | some _ => failNext .keyNotString
    | none => failNext .endInObject
    space
    match ← peek with
    | some ':' => pass 1
    | some _ => failNext .expectedColon
    | none => failNext .endInObject
    skipValue fuel
    space
    match ← peek with
    | some ',' =>
      pass 1
      skipMembers fuel
    | some '\x7d' => pass 1
    | some _ => failNext .expectedObjectComma
    | none => failNext .endInObject

end

/-- Passes over a value; every step takes a byte or enters a value, so the fuel suffices. -/
def skipAny : Reader Unit := do
  skipValue (2 * (← unread).length + 2)

end MessageBroker.Json.Reader
