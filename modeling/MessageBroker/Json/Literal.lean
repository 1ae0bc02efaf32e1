import MessageBroker.Json.Cursor
import MessageBroker.Text.Utf8

/-!
# String literals in JSON

A literal is read byte by byte; its escapes become the UTF-8 form of the characters they name, and
the whole must be UTF-8. Characters beyond 16 bits are escaped as a leading and a trailing
surrogate. Literals that are passed over are not decoded.
-/

namespace MessageBroker.Json

/-- The value of a hexadecimal digit. -/
def hexValue? (c : Char) : Option Nat :=
  if c.isDigit then some (c.toNat - 48)
  else if 'a' ≤ c ∧ c ≤ 'f' then some (c.toNat - 87)
  else if 'A' ≤ c ∧ c ≤ 'F' then some (c.toNat - 55)
  else none

/-- The number of a sequence of hexadecimal digits. -/
def hexNumber? (digits : List Char) : Option Nat :=
  digits.foldlM (fun n c => (hexValue? c).map (n * 16 + ·)) 0

/-- The character that a letter behind a backslash stands for. -/
def escapeOf? (letter : Char) : Option Char :=
  match letter with
  | '"' => some '"'
  | '\\' => some '\\'
  | '/' => some '/'
  | 'b' => some '\x08'
  | 'f' => some '\x0c'
  | 'n' => some '\n'
  | 'r' => some '\r'
  | 't' => some '\t'
  | _ => none

/-- The number belongs to a surrogate that leads a pair. -/
def isLeading (n : Nat) : Bool := 0xD800 ≤ n && n ≤ 0xDBFF

/-- The number belongs to a surrogate that ends a pair. -/
def isTrailing (n : Nat) : Bool := 0xDC00 ≤ n && n ≤ 0xDFFF

/-- The character of a pair of surrogates. -/
def ofSurrogates (leading trailing : Nat) : Char :=
  Char.ofNat ((leading - 0xD800) * 1024 + (trailing - 0xDC00) + 0x10000)

namespace Reader

/-- The next character inside a literal, left unread. -/
def within : Reader Char := do
  match ← peek with
  | some c => return c
  | none => fail .endInString

/-- Four hexadecimal digits. -/
def hexQuad : Reader Nat := do
  let quad := (← unread).take 4
  pass quad.length
  if quad.length < 4 then fail .endInString
  match hexNumber? (quad.map (fun byte => Char.ofNat byte.toNat)) with
  | some n => return n
  | none => fail .invalidEscape

/-- Takes a character of a surrogate pair's second escape. -/
def continuing (expected : Char) : Reader Unit := do
  let c ← within
  pass 1
  if c ≠ expected then fail .unfinishedSurrogate

/-- The character of an escape by number, behind `\u`. -/
def unicodeEscape : Reader Char := do
  let n ← hexQuad
  if isTrailing n then fail .loneSurrogate
  else if isLeading n then
    continuing '\\'
    continuing 'u'
    let m ← hexQuad
    if isTrailing m then return ofSurrogates n m else fail .loneSurrogate
  else return Char.ofNat n

/-- The character of an escape, behind its backslash. -/
def escape : Reader Char := do
  let letter ← within
  pass 1
  if letter = 'u' then unicodeEscape
  else match escapeOf? letter with
    | some c => return c
    | none => fail .invalidEscape

/-- The bytes of a literal up to its closing quote, behind those already read. -/
def literalBytes : (fuel : Nat) → List UInt8 → Reader (List UInt8)
  | 0, _ => fail .endInString
  | fuel + 1, done => do
    let c ← within
    if c = '"' then
      pass 1
      return done.reverse
    else if c = '\\' then
      pass 1
      let escaped ← escape
      literalBytes fuel ((String.utf8EncodeChar escaped).reverse ++ done)
    else if c.toNat < 0x20 then
      pass 1
      fail .controlCharacter
    else
      pass 1
      literalBytes fuel (UInt8.ofNat c.toNat :: done)

/-- A string, behind its opening quote. A byte that belongs to no character is reported where it
stands, once the whole literal has been read. -/
def literal : Reader String := do
  let start ← get
  let bytes ← literalBytes (start.rest.length + 1) []
  match Utf8.toString? bytes with
  | some s => return s
  | none =>
    set (start.skip (Utf8.validSize start.rest.length start.rest))
    failNext .invalidUnicode

/-! ## Literals that are passed over -/

/-- Passes over an escape, behind its backslash. -/
def skipEscape : Reader Unit := do
  let letter ← within
  pass 1
  if letter = 'u' then
    let _ ← hexQuad
  else if (escapeOf? letter).isNone then fail .invalidEscape

/-- Passes over the rest of a literal. -/
def skipLiteralBytes : (fuel : Nat) → Reader Unit
  | 0 => fail .endInString
  | fuel + 1 => do
    let c ← within
    if c = '"' then pass 1
    else if c = '\\' then
      pass 1
      skipEscape
      skipLiteralBytes fuel
    else if c.toNat < 0x20 then fail .controlCharacter
    else
      pass 1
      skipLiteralBytes fuel

/-- Passes over a string, behind its opening quote. -/
def skipLiteral : Reader Unit := do
  skipLiteralBytes ((← unread).length + 1)

end Reader

end MessageBroker.Json
