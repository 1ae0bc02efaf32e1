import MessageBroker.Json.Skip

/-!
# Shapes of JSON values

A `Shape` says what a reader expects: an integer within bounds, a list, a record with named fields,
any value at all. Reading goes through the text once and stops at the first fault, so a value of the
wrong kind is reported before a mistake behind it. A record may be written as an object, whose
unknown members are passed over, or as the array of its fields in order. Arrays and objects nest at
most 127 deep.

Main definitions: `Json.decode` reads a text of a given shape, and `Json.parse` any text.
-/

namespace MessageBroker.Json

/-- Bounds of an integer, under the name that complaints use. -/
structure IntegerRange where
  name : String
  least : Int
  greatest : Int

namespace IntegerRange

/-- One byte. -/
def byte : IntegerRange := ⟨"u8", 0, 255⟩

/-- A count of 32 bits. -/
def count : IntegerRange := ⟨"u32", 0, 4294967295⟩

/-- A signed number of 32 bits. -/
def short : IntegerRange := ⟨"i32", -2147483648, 2147483647⟩

/-- A signed number of 64 bits. -/
def long : IntegerRange := ⟨"i64", -9223372036854775808, 9223372036854775807⟩

end IntegerRange

/-- What is expected of a value. -/
inductive Shape where
  | any
  | unit
  | boolean
  | integer (range : IntegerRange)
  | string
  | timestamp
  | optional (inner : Shape)
  | list (item : Shape)
  | map (value : Shape)
  | record (name : String) (fields : List (String × Shape))

/-- The shape in the words of a complaint. -/
def Shape.expected : Shape → String
  | .any => "any valid JSON value"
  | .unit => "unit"
  | .boolean => "a boolean"
  | .integer range => range.name
  | .string => "a string"
  | .timestamp => "an RFC 3339 formatted date and time string"
  | .optional inner => inner.expected
  | .list _ => "a sequence"
  | .map _ => "a map"
  | .record name _ => "struct " ++ name

/-- A record in words, with the number of its fields. -/
def recordWithSize (name : String) (size : Nat) : String :=
  "struct " ++ name ++ " with " ++ String.ofList (Decimal.natural size) ++
    (if size = 1 then " element" else " elements")

namespace Reader

/-! ## Single values -/

/-- Complains about the value that begins with a given character. Arrays and objects are named
without being read. -/
def complain {α : Type} (expected : String) (c : Char) : Reader α := do
  let found : Found ← (match c with
    | 'n' => do
      word ['n', 'u', 'l', 'l']
      return .null
    | 't' => do
      word ['t', 'r', 'u', 'e']
      return .boolean true
    | 'f' => do
      word ['f', 'a', 'l', 's', 'e']
      return .boolean false
    | '"' => do
      pass 1
      return .string (← literal)
    | '[' => return .sequence
    | '\x7b' => return .map
    | c => if c = '-' || c.isDigit then Found.number <$> numeral else failNext .expectedValue)
  fail (.wrongKind found expected)

/-- An integer within bounds. -/
def integer (range : IntegerRange) : Reader Json := do
  let c ← first
  if c = '-' || c.isDigit then
    match ← numeral with
    | .integer i =>
      if range.least ≤ i ∧ i ≤ range.greatest then return .number (.integer i)
      else fail (.outOfRange i range.name)
    | n => fail (.wrongKind (.number n) range.name)
  else complain range.name c

/-- A boolean. -/
def boolean (expected : String) : Reader Json := do
  match ← first with
  | 't' =>
    word ['t', 'r', 'u', 'e']
    return .boolean true
  | 'f' =>
    word ['f', 'a', 'l', 's', 'e']
    return .boolean false
  | c => complain expected c

/-- A string. -/
def string (expected : String) : Reader String := do
  match ← first with
  | '"' =>
    pass 1
    literal
  | c => complain expected c

/-- Null. -/
def unit (expected : String) : Reader Json := do
  match ← first with
  | 'n' =>
    word ['n', 'u', 'l', 'l']
    return .null
  | c => complain expected c

/-- A string that writes an instant. -/
def timestamp (expected : String) : Reader Json := do
  let s ← string expected
  match Instant.ofText s with
  | .ok _ => return .string s
  | .error fault => fail (.timestamp fault)

/-! ## Brackets -/

/-- Whether an array goes on with an item; its closing bracket is left unread. -/
def hasItem (isFirst : Bool) : Reader Bool := do
  space
  match ← peek with
  | none => failNext .endInList
  | some ']' => return false
  | some c =>
    if isFirst then return true
    else if c = ',' then
      pass 1
      if (← first) = ']' then failNext .trailingComma else return true
    else failNext .expectedListComma

/-- Whether an object goes on with a name, the quote of which is taken; its closing brace is left
unread. -/
def hasMember (isFirst : Bool) : Reader Bool := do
  space
  match ← peek with
  | none => failNext .endInObject
  | some '\x7d' => return false
  | some c =>
    let c ← (if isFirst then return c
      else if c = ',' then do
        pass 1
        let c ← first
        if c = '\x7d' then failNext .trailingComma else return c
      else failNext .expectedObjectComma)
    if c = '"' then
      pass 1
      return true
    else failNext .keyNotString

/-- The colon between a name and its value. -/
def colon : Reader Unit := do
  space
  match ← peek with
  | some ':' => pass 1
  | some _ => failNext .expectedColon
  | none => failNext .endInObject

/-- The cursor behind the end of an array, or where the end was missed and the fault. -/
def endList (c : Cursor) : Cursor × Option Fault :=
  let c := c.skipSpace
  match c.peek? with
  | some ']' => (c.next, none)
  | some ',' =>
    let c := c.next.skipSpace
    (c, some (if c.peek? = some ']' then .trailingComma else .trailingCharacters))
  | some _ => (c, some .trailingCharacters)
  | none => (c, some .endInList)

/-- The cursor behind the end of an object, or where the end was missed and the fault. -/
def endObject (c : Cursor) : Cursor × Option Fault :=
  let c := c.skipSpace
  match c.peek? with
  | some '\x7d' => (c.next, none)
  | some ',' => (c, some .trailingComma)
  | some _ => (c, some .trailingCharacters)
  | none => (c, some .endInObject)

/-- Closes a bracket around a result. A fault of the result as a whole is placed behind the end of
the bracket, or where that end was missed. -/
def close {α : Type} (ending : Cursor → Cursor × Option Fault) (result : Except Fault α) :
    Reader α := fun c =>
  let (after, missed) := ending c
  match result, missed with
  | .error fault, _ => .error (after.error fault)
  | .ok _, some fault => .error (after.next.error fault)
  | .ok value, none => .ok (value, after)

/-- Takes an opening bracket and gives the depth that is left inside it. -/
def enter (depth : Nat) : Reader Nat :=
  match depth with
  | 0 => failNext .tooDeep
  | inner + 1 => do
    pass 1
    return inner

/-! ## Records -/

/-- The fields of a record in order, or the first that is missing. An optional field may be
missing. -/
def gather (members : List (String × Json)) : List (String × Shape) →
    Except Fault (List (String × Json))
  | [] => .ok []
  | (name, shape) :: rest => do
    let value ← (match Entries.find? name members, shape with
      | some value, _ => .ok value
      | none, .optional _ => .ok .null
      | none, _ => .error (.missingField name))
    let others ← gather members rest
    return (name, value) :: others

/-! ## Nested values -/

mutual

/-- A value of a shape. -/
def value : (fuel depth : Nat) → Shape → Reader Json
  | 0, _, _ => fail .tooDeep
  | fuel + 1, depth, shape => do
    match shape with
    | .any => anyValue fuel depth
    | .unit => unit shape.expected
    | .boolean => boolean shape.expected
    | .integer range => integer range
    | .string => Json.string <$> string shape.expected
    | .timestamp => timestamp shape.expected
    | .optional inner =>
      space
      if (← peek) = some 'n' then unit shape.expected else value fuel depth inner
    | .list item =>
      match ← first with
      | '[' =>
        let inner ← enter depth
        let found ← items fuel inner item true
        close endList (.ok (.array found))
      | c => complain shape.expected c
    | .map inner =>
      match ← first with
      | '\x7b' =>
        let depth ← enter depth
        let found ← members fuel depth inner true []
        close endObject (.ok (.object found))
      | c => complain shape.expected c
    | .record name fields =>
      match ← first with
      | '[' =>
        let inner ← enter depth
        let found ← sequence fuel inner fields true
        close endList (if found.length < fields.length then
            .error (.wrongLength found.length (recordWithSize name fields.length))
          else .ok (Json.ofMembers found))
      | '\x7b' =>
        let inner ← enter depth
        let found ← fieldMembers fuel inner fields true []
        close endObject (found.bind (fun found => (gather found fields).map Json.ofMembers))
      | c => complain shape.expected c

/-- A value of any kind. -/
def anyValue : (fuel depth : Nat) → Reader Json
  | 0, _ => fail .tooDeep
  | fuel + 1, depth => do
    match ← first with
    | 'n' =>
      word ['n', 'u', 'l', 'l']
      return .null
    | 't' =>
      word ['t', 'r', 'u', 'e']
      return .boolean true
    | 'f' =>
      word ['f', 'a', 'l', 's', 'e']
      return .boolean false
    | '"' =>
      pass 1
      Json.string <$> literal
    | '[' =>
      let inner ← enter depth
      let found ← items fuel inner .any true
      close endList (.ok (.array found))
    | '\x7b' =>
      let inner ← enter depth
      let found ← members fuel inner .any true []
      close endObject (.ok (.object found))
    | c => if c = '-' || c.isDigit then Json.number <$> numeral else failNext .expectedValue

/-- The items of an array. -/
def items : (fuel depth : Nat) → Shape → (isFirst : Bool) → Reader (List Json)
  | 0, _, _, _ => fail .tooDeep
  | fuel + 1, depth, item, isFirst => do
    if ← hasItem isFirst then
      let head ← value fuel depth item
      let rest ← items fuel depth item false
      return head :: rest
    else return []

/-- The members of an object, added to those already read; the last of a name counts. -/
def members : (fuel depth : Nat) → Shape → (isFirst : Bool) → List (String × Json) →
    Reader (List (String × Json))
  | 0, _, _, _, _ => fail .tooDeep
  | fuel + 1, depth, inner, isFirst, done => do
    if ← hasMember isFirst then
      let name ← literal
      colon
      let found ← value fuel depth inner
      members fuel depth inner false (Entries.insert name found done)
    else return done

/-- The fields of a record that is written as an array, as many as there are. -/
def sequence : (fuel depth : Nat) → List (String × Shape) → (isFirst : Bool) →
    Reader (List (String × Json))
  | 0, _, _, _ => fail .tooDeep
  | _ + 1, _, [], _ => return []
  | fuel + 1, depth, (name, shape) :: rest, isFirst => do
    if ← hasItem isFirst then
      let head ← value fuel depth shape
      let tail ← sequence fuel depth rest false
      return (name, head) :: tail
    else return []

/-- The members of a record that are its fields, or the fault of a repeated field. -/
def fieldMembers : (fuel depth : Nat) → List (String × Shape) → (isFirst : Bool) →
    List (String × Json) → Reader (Except Fault (List (String × Json)))
  | 0, _, _, _, _ => fail .tooDeep
  | fuel + 1, depth, fields, isFirst, done => do
    if ← hasMember isFirst then
      let name ← literal
      match Entries.find? name fields with
      | none =>
        colon
        skipAny
        fieldMembers fuel depth fields false done
      | some shape =>
        if (Entries.find? name done).isSome then return .error (.duplicateField name)
        else
          colon
          let found ← value fuel depth shape
          fieldMembers fuel depth fields false (Entries.insert name found done)
    else return .ok done

end

end Reader

/-- The number of arrays and objects that may lie within each other. -/
def greatestDepth : Nat := 127

/-- A text of a given shape, with nothing but white space around it, in which arrays and objects nest
no deeper than given. Every step of the reader takes a byte or enters a value, so twice the length
is fuel enough. -/
def decodeWithin (depth : Nat) (shape : Shape) (bytes : List UInt8) : Except ReadError Json :=
  let text : Reader Json := do
    let found ← Reader.value (2 * bytes.length + 4) depth shape
    Reader.space
    if (← Reader.peek).isSome then Reader.failNext .trailingCharacters
    return found
  (text.run (Cursor.start bytes)).map Prod.fst

/-- A text of a given shape. -/
def decode (shape : Shape) (bytes : List UInt8) : Except ReadError Json :=
  decodeWithin greatestDepth shape bytes

/-- Any JSON text. -/
def parse (bytes : List UInt8) : Except ReadError Json := decode .any bytes

end MessageBroker.Json
