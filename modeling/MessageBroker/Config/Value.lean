import MessageBroker.NameTable
import MessageBroker.Numeric.Binary64
import MessageBroker.Numeric.Decimal

/-!
# Configuration values

A layer of the configuration is a tree of values. A value knows its origin, the file or the
environment, so that a complaint can name it; tables that were merged from several layers have none.

Main definitions: `Value.merge` puts a layer over another, entry by entry where both have tables, and
`Path` names a place in a tree.
-/

namespace MessageBroker.Config

/-- A value without parts. -/
inductive Scalar where
  | null
  | boolean (value : Bool)
  | integer (value : Int)
  | real (value : Binary64)
  | text (value : String)
deriving DecidableEq, Inhabited

/-- A configuration value and its origin. -/
inductive Value where
  | scalar (origin : Option String) (value : Scalar)
  | list (origin : Option String) (items : List Value)
  | table (origin : Option String) (entries : List (String × Value))
deriving Inhabited

namespace Value

/-- The absent value. -/
def null : Value := .scalar none .null

/-- The origin of a value. -/
def origin : Value → Option String
  | .scalar origin _ | .list origin _ | .table origin _ => origin

/-- A table stays as it is; any other value becomes an empty table. -/
def asTable : Value → Value
  | .table origin entries => .table origin entries
  | _ => .table none []

/-- The entries of a table; other values have none. -/
def entries : Value → List (String × Value)
  | .table _ entries => entries
  | _ => []

/-- The items of a list; other values have none. -/
def items : Value → List Value
  | .list _ items => items
  | _ => []

/-- The entry of a table under a name. -/
def lookup? (v : Value) (name : String) : Option Value := Entries.find? name v.entries

/-- Changes the entry under a name of a value that is made a table; a missing entry is null. -/
def modifyEntry (name : String) (change : Value → Value) (v : Value) : Value :=
  match v with
  | .table origin entries =>
    .table origin (Entries.insert name (change ((Entries.find? name entries).getD null)) entries)
  | _ => .table none [(name, change null)]

/-- Changes the item at an index of a value that is made a list. A negative index counts from the
end; nulls fill the list up to an index outside it. -/
def modifyItem (index : Int) (change : Value → Value) (v : Value) : Value :=
  let (origin, items) := match v with
    | .list origin items => (origin, items)
    | _ => (none, [])
  let size := items.length
  let before := if index < 0 then (-index).toNat - size else 0
  let place := if index < 0 then (size + before) - (-index).toNat else index.toNat
  let padded := List.replicate before null ++ items ++ List.replicate (place + 1 - size) null
  .list origin ((if index < 0 then padded.take (size + before) else padded).modify place change)

/-! ## Layers -/

mutual

/-- Puts a value over another: a table over a table joins their entries, any other value takes the
place of the one below. -/
def merge : Value → Value → Value
  | .table _ entries, below => mergeEntries entries below.asTable
  | .scalar origin value, _ => .scalar origin value
  | .list origin items, _ => .list origin items

/-- Puts the entries of a table over those of another. -/
def mergeEntries : List (String × Value) → Value → Value
  | [], below => below
  | (name, value) :: rest, below =>
    mergeEntries rest (below.modifyEntry name (merge value))

end

end Value

/-! ## Paths -/

/-- A step from a value to a part of it. -/
inductive Step where
  | entry (name : String)
  | item (index : Int)
deriving DecidableEq

/-- A place in a tree of values. -/
abbrev Path := List Step

namespace Path

/-- A character of a plain name. -/
def isNameChar (c : Char) : Bool :=
  c.isAlphanum || c = '_' || c = '-'

/-- The integer of an index, if 64 bits hold it. -/
def index? (s : List Char) : Option Int :=
  let read (digits : List Char) (sign : Int) : Option Int :=
    (Decimal.read? digits).bind fun n =>
      let i := sign * (n : Int)
      if -9223372036854775808 ≤ i ∧ i ≤ 9223372036854775807 then some i else none
  match s with
  | '-' :: digits => read digits (-1)
  | digits => read digits 1

/-- Blanks between the brackets of an index. -/
def isGap (c : Char) : Bool := c = ' ' || c = '\t'

/-- Steps behind the first name: `.name` or `[index]`, at most `fuel` of them. -/
def steps? : (fuel : Nat) → List Char → Option Path
  | _, [] => some []
  | 0, _ => none
  | fuel + 1, '.' :: rest =>
    let name := rest.takeWhile isNameChar
    if name.isEmpty then none
    else (steps? fuel (rest.drop name.length)).map (.entry (String.ofList name) :: ·)
  | fuel + 1, '[' :: rest =>
    let inside := rest.takeWhile (· ≠ ']')
    let number := ((inside.dropWhile isGap).reverse.dropWhile isGap).reverse
    match index? number, rest.drop inside.length with
    | some i, ']' :: rest => (steps? fuel rest).map (.item i :: ·)
    | _, _ => none
  | _ + 1, _ => none

/-- The path that a key writes: names joined by points, and indices in brackets. A key of another
form is a single name. -/
def ofKey (key : String) : Path :=
  let s := key.toList
  let name := s.takeWhile isNameChar
  if name.isEmpty then [.entry key]
  else
    match steps? s.length (s.drop name.length) with
    | some steps => .entry (String.ofList name) :: steps
    | none => [.entry key]

/-- Changes the value at a place, making the tables and lists on the way. -/
def modify (change : Value → Value) : Path → Value → Value
  | [], v => change v
  | .entry name :: rest, v => v.modifyEntry name (modify change rest)
  | .item index :: rest, v => v.modifyItem index (modify change rest)

end Path

/-- A layer: values under keys, each of which is a path. -/
abbrev Layer := List (String × Value)

/-- Puts a layer over a tree. -/
def Layer.over (layer : Layer) (below : Value) : Value :=
  layer.foldl (fun tree entry => (Path.ofKey entry.1).modify entry.2.merge tree) below

end MessageBroker.Config
