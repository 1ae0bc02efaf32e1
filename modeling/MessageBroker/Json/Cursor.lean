import MessageBroker.Json.Fault

/-!
# Reading position

A `Cursor` is the unread rest of a text and the place it begins at. A `Reader` takes bytes from a
cursor or fails with a placed fault. `fail` places a fault behind what has been read, `failNext`
behind the byte that was looked at and found wrong.
-/

namespace MessageBroker.Json

/-- The unread bytes, and the place of the first of them. -/
structure Cursor where
  rest : List UInt8
  line : Nat
  column : Nat

namespace Cursor

/-- The start of a text. -/
def start (bytes : List UInt8) : Cursor := ⟨bytes, 1, 0⟩

/-- The cursor behind the next byte; a line feed starts a new line. -/
def next (c : Cursor) : Cursor :=
  match c.rest with
  | [] => c
  | byte :: rest => if byte = 10 then ⟨rest, c.line + 1, 0⟩ else ⟨rest, c.line, c.column + 1⟩

/-- The cursor behind a number of bytes. -/
def skip : Nat → Cursor → Cursor
  | 0, c => c
  | n + 1, c => skip n c.next

/-- The character of the next byte; bytes beyond ASCII are no character of the grammar. -/
def peek? (c : Cursor) : Option Char := c.rest.head?.map (fun byte => Char.ofNat byte.toNat)

/-- A fault at the cursor. -/
def error (c : Cursor) (fault : Fault) : ReadError := ⟨fault, c.line, c.column⟩

/-- White space of JSON. -/
def isSpace (byte : UInt8) : Bool := byte = 32 || byte = 10 || byte = 9 || byte = 13

/-- The cursor behind white space. -/
def skipSpace (c : Cursor) : Cursor := skip (c.rest.takeWhile isSpace).length c

end Cursor

/-- A reader takes bytes from the front of a text, or fails. -/
abbrev Reader := StateT Cursor (Except ReadError)

namespace Reader

/-- Fails behind what has been read. -/
def fail {α : Type} (fault : Fault) : Reader α := fun c => .error (c.error fault)

/-- Fails behind the next byte. -/
def failNext {α : Type} (fault : Fault) : Reader α := fun c => .error (c.next.error fault)

/-- The character of the next byte, left unread. -/
def peek : Reader (Option Char) := fun c => .ok (c.peek?, c)

/-- The unread bytes. -/
def unread : Reader (List UInt8) := fun c => .ok (c.rest, c)

/-- Passes over bytes. -/
def pass (n : Nat) : Reader Unit := fun c => .ok ((), c.skip n)

/-- Passes over white space. -/
def space : Reader Unit := fun c => .ok ((), c.skipSpace)

/-- The first character of a value, left unread, behind white space. -/
def first : Reader Char := do
  space
  match ← peek with
  | some c => return c
  | none => failNext .endInValue

/-- Takes the characters of a word. -/
def word : List Char → Reader Unit
  | [] => return ()
  | expected :: rest => do
    match ← peek with
    | none => fail .endInValue
    | some c =>
      pass 1
      if c = expected then word rest else fail .expectedWord

/-- Takes the leading digits. -/
def digits : Reader (List Char) := do
  let run := ((← unread).map (fun byte => Char.ofNat byte.toNat)).takeWhile Char.isDigit
  pass run.length
  return run

end Reader

end MessageBroker.Json
