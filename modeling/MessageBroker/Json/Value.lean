import MessageBroker.NameTable
import MessageBroker.Numeric.Binary64

/-!
# JSON values

Numbers are exact integers or doubles. An object is the list of its members; the reader and
`Json.ofMembers` keep them in increasing order of name, without repetitions.
-/

namespace MessageBroker

/-- A JSON number: an exact integer, or a double. -/
inductive Number where
  | integer (value : Int)
  | real (value : Binary64)
deriving DecidableEq, Inhabited

/-- A JSON value. -/
inductive Json where
  | null
  | boolean (value : Bool)
  | number (value : Number)
  | string (value : String)
  | array (items : List Json)
  | object (members : List (String × Json))
deriving Inhabited

namespace Json

/-- The number of an integer. -/
def integer (i : Int) : Json := .number (.integer i)

/-- The number of a natural number. -/
def natural (n : Nat) : Json := .number (.integer n)

/-- An object of the listed members; later ones replace earlier ones of the same name. -/
def ofMembers (members : List (String × Json)) : Json := .object (Entries.ofList members)

/-- The object of a table's entries. -/
def ofTable {α : Type} (f : α → Json) (table : NameTable α) : Json :=
  .object (table.entries.map fun entry => (entry.1, f entry.2))

/-- The member of an object under a name. -/
def member? (name : String) : Json → Option Json
  | .object members => Entries.find? name members
  | _ => none

/-- The text of a string. -/
def string? : Json → Option String
  | .string s => some s
  | _ => none

/-- The value of an integer. -/
def integer? : Json → Option Int
  | .number (.integer i) => some i
  | _ => none

/-- The value of an integer that is not negative. -/
def natural? (j : Json) : Option Nat :=
  match j.integer? with
  | some (.ofNat n) => some n
  | _ => none

/-- The items of an array. -/
def items? : Json → Option (List Json)
  | .array items => some items
  | _ => none

/-- The members of an object. -/
def members? : Json → Option (List (String × Json))
  | .object members => some members
  | _ => none

mutual

/-- The number of arrays and objects that lie within each other. -/
def depth : Json → Nat
  | .array items => depthOfItems items + 1
  | .object members => depthOfMembers members + 1
  | _ => 0

/-- The greatest depth of the items. -/
def depthOfItems : List Json → Nat
  | [] => 0
  | item :: rest => max (depth item) (depthOfItems rest)

/-- The greatest depth of the members. -/
def depthOfMembers : List (String × Json) → Nat
  | [] => 0
  | (_, value) :: rest => max (depth value) (depthOfMembers rest)

end

end Json

end MessageBroker
