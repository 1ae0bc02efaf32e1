import MessageBroker.Config.Toml.Atom

/-!
# TOML documents

A document is built line by line. A `Node` remembers how a table came about, since that decides
what may still be added to it: a table under a header is defined once, a table that only lies on the
way to another may be defined later, a table made by the names of a key takes more keys but no
header, and a value takes nothing.

Main definition: `Toml.parse`, the entries of a document.
-/

namespace MessageBroker.Config.Toml

/-- How a table came about. -/
inductive Making where
  /-- It lies on the way to a table with a header. -/
  | passed
  /-- It has a header of its own. -/
  | headed
  /-- It lies on the way to a key. -/
  | dotted
deriving DecidableEq

/-- A part of a document while it is built. -/
inductive Node where
  | value (value : Value)
  | table (making : Making) (entries : List (String × Node))
  /-- Tables under headers of one name in double brackets, the last one first. -/
  | tables (elements : List (List (String × Node)))
deriving Inhabited

/-- The entries of a table while it is built. -/
abbrev Nodes := List (String × Node)

/-! ## Building -/

namespace Nodes

/-- Puts a value under a key. Tables on the way are made; tables with a header of their own, and
values, are not entered. -/
def assign (value : Value) : (names : List String) → Nodes → Option Nodes
  | [], _ => none
  | [name], nodes =>
    if (Entries.find? name nodes).isSome then none
    else some (Entries.insert name (.value value) nodes)
  | name :: next :: rest, nodes =>
    match Entries.find? name nodes with
    | none =>
      (assign value (next :: rest) []).map fun inner =>
        Entries.insert name (.table .dotted inner) nodes
    | some (.table making entries) =>
      if making = .headed ∨ (making = .passed ∧ rest.isEmpty) then none
      else
        (assign value (next :: rest) entries).map fun inner =>
          Entries.insert name (.table making inner) nodes
    | some _ => none

/-- Changes the table that a list of names leads to, by way of the last of several tables. Missing
tables on the way are made. -/
def within (change : Nodes → Option Nodes) : (names : List String) → Nodes → Option Nodes
  | [], nodes => change nodes
  | name :: rest, nodes =>
    match (Entries.find? name nodes).getD (.table .passed []) with
    | .table making entries =>
      (within change rest entries).map fun inner =>
        Entries.insert name (.table making inner) nodes
    | .tables (last :: others) =>
      (within change rest last).map fun inner =>
        Entries.insert name (.tables (inner :: others)) nodes
    | .tables [] | .value _ => none

/-- Opens a table under its header. -/
def open? (name : String) (nodes : Nodes) : Option Nodes :=
  match Entries.find? name nodes with
  | none => some (Entries.insert name (.table .headed []) nodes)
  | some (.table .passed entries) => some (Entries.insert name (.table .headed entries) nodes)
  | some _ => none

/-- Opens the next of several tables under their header. -/
def openNext? (name : String) (nodes : Nodes) : Option Nodes :=
  match Entries.find? name nodes with
  | none => some (Entries.insert name (.tables [[]]) nodes)
  | some (.tables elements) => some (Entries.insert name (.tables ([] :: elements)) nodes)
  | some _ => none

end Nodes

/-! ## From nodes to values -/

mutual

/-- The value of a part. -/
def Node.toValue (origin : Option String) : Node → Value
  | .value value => value
  | .table _ entries => .table origin (nodesToEntries origin entries)
  | .tables elements => .list origin (elementsToItems origin elements).reverse

/-- The entries of a table. -/
def nodesToEntries (origin : Option String) : List (String × Node) → List (String × Value)
  | [] => []
  | (name, node) :: rest => (name, node.toValue origin) :: nodesToEntries origin rest

/-- The tables of a list, in their stored order. -/
def elementsToItems (origin : Option String) : List (List (String × Node)) → List Value
  | [] => []
  | entries :: rest => .table origin (nodesToEntries origin entries) :: elementsToItems origin rest

end

/-! ## Values -/

namespace Parser

mutual

/-- A value. -/
def value (origin : Option String) : (fuel : Nat) → Parser Value
  | 0 => fail
  | fuel + 1 => do
    match ← peek with
    | some '"' | some '\'' =>
      return .scalar origin (.text (← string))
    | some '[' =>
      pass 1
      return .list origin (← items origin fuel)
    | some '\x7b' =>
      pass 1
      return .table origin (nodesToEntries origin (← members origin fuel []))
    | _ => return .scalar origin (← atom)

/-- The items of an array up to its closing bracket. -/
def items (origin : Option String) : (fuel : Nat) → Parser (List Value)
  | 0 => fail
  | fuel + 1 => do
    gap ((← unread).length + 1)
    if ← skip? [']'] then return []
    let head ← value origin fuel
    gap ((← unread).length + 1)
    if ← skip? [','] then return head :: (← items origin fuel)
    expect [']']
    return [head]

/-- The members of an inline table up to its closing brace. -/
def members (origin : Option String) : (fuel : Nat) → Nodes → Parser Nodes
  | 0, _ => fail
  | fuel + 1, nodes => do
    gap ((← unread).length + 1)
    if ← skip? ['\x7d'] then return nodes
    let names ← key
    expect ['=']
    blanks
    let found ← value origin fuel
    match nodes.assign found names with
    | none => fail
    | some nodes =>
      gap ((← unread).length + 1)
      if ← skip? [','] then members origin fuel nodes
      else
        expect ['\x7d']
        return nodes

end

/-! ## Lines -/

/-- A document while it is read: its tables, and the header that is open. -/
structure Draft where
  nodes : Nodes
  header : List String

/-- The header of a table, behind its opening brackets. -/
def header (closing : List Char) : Parser (List String × String) := do
  let names ← key
  expect closing
  match names.reverse with
  | last :: others => return (others.reverse, last)
  | [] => fail

/-- Applies a change that may be refused. -/
def settled (draft : Draft) (header : List String) (nodes : Option Nodes) : Parser Draft :=
  match nodes with
  | some nodes => return { draft with nodes, header }
  | none => fail

/-- What a line says: a header, a key with its value, or nothing. -/
def content (origin : Option String) (draft : Draft) : Parser Draft := do
  match ← peek with
  | some '[' =>
    pass 1
    if ← skip? ['['] then
      let (way, last) ← header [']', ']']
      settled draft (way ++ [last]) (draft.nodes.within (Nodes.openNext? last) way)
    else
      let (way, last) ← header [']']
      settled draft (way ++ [last]) (draft.nodes.within (Nodes.open? last) way)
  | some '#' | some '\n' | some '\r' | none => return draft
  | some _ =>
    let names ← key
    expect ['=']
    blanks
    let found ← value origin ((← unread).length + 1)
    settled draft draft.header (draft.nodes.within (Nodes.assign found names) draft.header)

/-- One line of a document. -/
def line (origin : Option String) (draft : Draft) : Parser Draft := do
  blanks
  let draft ← content origin draft
  restOfLine
  return draft

/-- The lines of a document, at most `fuel` of them. -/
def lines (origin : Option String) : (fuel : Nat) → Draft → Parser Draft
  | 0, _ => fail
  | fuel + 1, draft => do
    if (← peek).isNone then return draft
    lines origin fuel (← line origin draft)

end Parser

/-- The entries of a document, none if it is not TOML. A byte order mark at the start does not
count. -/
def parse (origin : Option String) (text : List Char) : Option (List (String × Value)) :=
  let text := match text with
    | '\ufeff' :: rest => rest
    | text => text
  (StateT.run (Parser.lines origin (text.length + 1) ⟨[], []⟩) text).map fun result =>
    nodesToEntries origin result.1.nodes

end MessageBroker.Config.Toml
