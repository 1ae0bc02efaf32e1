import MessageBroker.Json.Value
import MessageBroker.Numeric.RealText

/-!
# Written JSON

The compact form has no blanks. Strings escape quotes, backslashes and control characters, and
leave all other characters as they are. The indented form puts every item and member on a line of
its own.
-/

namespace MessageBroker

/-- The text of a number. An infinite number and a NaN have none and are written as null. -/
def Number.write : Number → List Char
  | .integer i => Decimal.integer i
  | .real x => if x.isFinite then RealStyle.json.write x else ['n', 'u', 'l', 'l']

namespace Json

/-! ## Strings -/

/-- One character of a string literal. -/
def escaped (c : Char) : List Char :=
  match c with
  | '"' => ['\\', '"']
  | '\\' => ['\\', '\\']
  | '\n' => ['\\', 'n']
  | '\r' => ['\\', 'r']
  | '\t' => ['\\', 't']
  | '\x08' => ['\\', 'b']
  | '\x0c' => ['\\', 'f']
  | _ =>
    if c.toNat < 0x20 then
      ['\\', 'u', '0', '0', Nat.digitChar (c.toNat / 16), Nat.digitChar (c.toNat % 16)]
    else [c]

/-- A string literal. -/
def literal (s : String) : List Char := '"' :: s.toList.flatMap escaped ++ ['"']

/-! ## Compact text -/

mutual

/-- The compact text of a value. -/
def write : Json → List Char
  | .null => ['n', 'u', 'l', 'l']
  | .boolean true => ['t', 'r', 'u', 'e']
  | .boolean false => ['f', 'a', 'l', 's', 'e']
  | .number n => n.write
  | .string s => literal s
  | .array items => '[' :: writeItems items ++ [']']
  | .object members => '\x7b' :: writeMembers members ++ ['\x7d']

/-- The items of an array, with commas between them. -/
def writeItems : List Json → List Char
  | [] => []
  | [item] => write item
  | item :: rest => write item ++ ',' :: writeItems rest

/-- The members of an object, with commas between them. -/
def writeMembers : List (String × Json) → List Char
  | [] => []
  | [(name, value)] => literal name ++ ':' :: write value
  | (name, value) :: rest => literal name ++ ':' :: write value ++ ',' :: writeMembers rest

end

/-- The compact text as a string. -/
def toText (j : Json) : String := String.ofList j.write

/-! ## Indented text -/

/-- A line break and the indentation of a level. -/
def lineBreak (level : Nat) : List Char := '\n' :: List.replicate (2 * level) ' '

mutual

/-- The text of a value on several lines, from a given level of indentation on. -/
def writeIndented (level : Nat) : Json → List Char
  | .array [] => ['[', ']']
  | .array items => '[' :: writeIndentedItems (level + 1) items ++ lineBreak level ++ [']']
  | .object [] => ['\x7b', '\x7d']
  | .object members =>
    '\x7b' :: writeIndentedMembers (level + 1) members ++ lineBreak level ++ ['\x7d']
  | .null => write .null
  | .boolean b => write (.boolean b)
  | .number n => write (.number n)
  | .string s => write (.string s)

/-- Items on lines of their own. -/
def writeIndentedItems (level : Nat) : List Json → List Char
  | [] => []
  | [item] => lineBreak level ++ writeIndented level item
  | item :: rest =>
    lineBreak level ++ writeIndented level item ++ ',' :: writeIndentedItems level rest

/-- Members on lines of their own. -/
def writeIndentedMembers (level : Nat) : List (String × Json) → List Char
  | [] => []
  | [(name, value)] => lineBreak level ++ literal name ++ ':' :: ' ' :: writeIndented level value
  | (name, value) :: rest =>
    lineBreak level ++ literal name ++ ':' :: ' ' :: writeIndented level value ++
      ',' :: writeIndentedMembers level rest

end

/-- The indented text as a string. -/
def toIndentedText (j : Json) : String := String.ofList (j.writeIndented 0)

end Json

end MessageBroker
